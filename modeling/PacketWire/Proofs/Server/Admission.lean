import PacketWire.Proofs.Server.Roster

/-!
# Every session is let in and let go once

What the steps of a server do to what its sessions share makes a log, in which each entry is about
one session, or about a socket that has got none. In whatever order the steps of the sessions come,
the entries of one session stand in the order of its life, and each of them once.

* `Roster.deeds`: the log of a run.
* `Takes.logged`: what a step adds to the log.
* `run_accounted`: what a run has done with its sockets and sessions.
-/

namespace PacketWire

/-- The entries about a session. -/
def Deed.about (id : SessionId) (log : List Deed) : List Deed := log.filter (·.session? = some id)

/-! ## The life of a session -/

/-- How a session is let in. -/
def Deed.admission (id : SessionId) (peer : SocketAddress) : List Deed :=
  [.issued id, .entered id peer, .counted id, .activated id, .opened id peer, .started id]

/-- How its task ends. -/
def Deed.ending (id : SessionId) : Outcome → List Deed
  | .aborted => [.ended id .aborted, .reported id]
  | outcome => [.ended id outcome]

/-- All that happens to a session, when its task ends with an outcome: it is told to the observer
once, removed from the map once, and then told to the observer once more. -/
def Deed.life (id : SessionId) (peer : SocketAddress) (outcome : Outcome) : List Deed :=
  Deed.admission id peer ++ Deed.ending id outcome ++
    [.removed id, .deactivated id, .closed id peer outcome.fault?]

/-- What has happened to a session, by what is next for it. -/
def Task.Told (task : Task) (deeds : List Deed) : Prop :=
  let admitted := Deed.admission task.id task.peer
  match task.stage with
  | .running => deeds = admitted
  | .reporting => deeds = admitted ++ [.ended task.id .aborted]
  | .leaving outcome => deeds = admitted ++ Deed.ending task.id outcome
  | .deactivating outcome => deeds = admitted ++ Deed.ending task.id outcome ++ [.removed task.id]
  | .announcing outcome =>
    deeds = admitted ++ Deed.ending task.id outcome ++ [.removed task.id, .deactivated task.id]
  | .released => ∃ outcome, deeds = Deed.life task.id task.peer outcome

/-- A session's fault is told to the observer where its task failed or broke off. -/
theorem Outcome.fault?_eq_none_iff {outcome : Outcome} :
    outcome.fault? = none ↔ outcome = .finished := by
  cases outcome <;> simp [fault?]

/-! ## Sockets -/

/-- What has been done about a session that is being let in. -/
def Intake.done : Intake → List Deed
  | .waiting | .judging _ | .rejecting | .numbering _ => []
  | .entering id _ => [.issued id]
  | .counting id peer => [.issued id, .entered id peer]
  | .activating id peer => [.issued id, .entered id peer, .counted id]
  | .announcing id peer => [.issued id, .entered id peer, .counted id, .activated id]
  | .spawning id peer => [.issued id, .entered id peer, .counted id, .activated id, .opened id peer]

/-- What has been done about the socket at hand. -/
def Intake.Pending (intake : Intake) (deeds : List Deed) : Prop :=
  match intake with
  | .waiting => deeds = []
  | .rejecting => ∃ peer, deeds = [.arrived peer]
  | .judging peer | .numbering peer | .entering _ peer | .counting _ peer | .activating _ peer
  | .announcing _ peer | .spawning _ peer => deeds = .arrived peer :: intake.done

/-- All that is done about a socket: it is rejected, or let in as a session. -/
def Deed.verdict : SocketAddress × Option SessionId → List Deed
  | (peer, none) => [.arrived peer, .rejected]
  | (peer, some id) => .arrived peer :: Deed.admission id peer

namespace Roster

/-- Where a session is, and what has happened to it. -/
inductive Story (roster : Roster) (id : SessionId) : List Deed → Prop
  | unheard : id ∉ roster.ids → Story roster id []
  | admitted : roster.intake.session? = some id → Story roster id roster.intake.done
  | told {task : Task} {deeds : List Deed} :
      task ∈ roster.tasks → task.id = id → task.Told deeds → Story roster id deeds

/-- What has been done about sockets: each was rejected or let in, one after another, and one may
be at hand. -/
def Sockets (roster : Roster) (deeds : List Deed) : Prop :=
  ∃ (sockets : List (SocketAddress × Option SessionId)) (pending : List Deed),
    deeds = sockets.flatMap Deed.verdict ++ pending ∧
      sockets.filterMap (·.2) = roster.tasks.map (·.id) ∧ roster.intake.Pending pending

/-- A log that tells how the sessions of a server have come to where they are. -/
structure Logged (roster : Roster) (log : List Deed) : Prop where
  books : roster.books = log.foldl Deed.write {}
  issued : log.filterMap Deed.issued? = roster.ids
  story : ∀ id, roster.Story id (Deed.about id log)
  sockets : roster.Sockets (log.filter Deed.isIntake)

theorem logged_fresh (limit : Nat) : Logged { limit } [] where
  books := rfl
  issued := rfl
  story := fun _ => .unheard (by simp [ids, Intake.session?])
  sockets := ⟨[], [], rfl, rfl, rfl⟩

variable {roster next : Roster} {log : List Deed} {step : Step} {deed : Option Deed}

/-! ## One step -/

/-- Moving a task on leaves the others where they are. -/
theorem mem_of_mem_moved {front back : List Task} {old new task : Task} (hne : task ≠ old)
    (h : task ∈ front ++ old :: back) : task ∈ front ++ new :: back := by
  simp only [List.mem_append, List.mem_cons] at h ⊢
  exact h.imp_right fun hrest => .inr (hrest.resolve_left hne)

theorem filter_entry_of_ne {live : List (SessionId × SocketAddress)} {other id : SessionId}
    (hne : other ≠ id) :
    (live.filter (·.1 ≠ other)).filter (·.1 = id) = live.filter (·.1 = id) := by
  rw [List.filter_filter]
  refine List.filter_congr fun entry _ => ?_
  by_cases hentry : entry.1 = id <;> simp [hentry, hne.symm]

namespace Story

variable {id : SessionId} {deeds : List Deed} (h : roster.Story id deeds)
  (hnodup : roster.ids.Nodup)
include h

theorem eq_nil (hnot : id ∉ roster.ids) : deeds = [] := by
  cases h with
  | unheard => rfl
  | admitted hsession => exact absurd (by simp [ids, hsession]) hnot
  | told htask hid =>
    exact absurd (List.mem_append_left _ (List.mem_map.mpr ⟨_, htask, hid⟩)) hnot

include hnodup

theorem eq_done (hsession : roster.intake.session? = some id) : deeds = roster.intake.done := by
  cases h with
  | unheard hnot => exact absurd (by simp [ids, hsession]) hnot
  | admitted => rfl
  | told htask hid =>
    rw [ids, hsession, Option.toList_some, List.nodup_append] at hnodup
    exact absurd rfl (hnodup.2.2 id (List.mem_map.mpr ⟨_, htask, hid⟩) id List.mem_cons_self)

theorem told_of_mem {task : Task} (htask : task ∈ roster.tasks) (hid : task.id = id) :
    task.Told deeds := by
  have hmem : id ∈ roster.tasks.map (·.id) := List.mem_map.mpr ⟨task, htask, hid⟩
  cases h with
  | unheard hnot => exact absurd (List.mem_append_left _ hmem) hnot
  | admitted hsession =>
    rw [ids, hsession, Option.toList_some, List.nodup_append] at hnodup
    exact absurd rfl (hnodup.2.2 id hmem id List.mem_cons_self)
  | told hother hsame htold =>
    rw [ids, List.nodup_append] at hnodup
    rwa [List.inj_on_of_nodup_map hnodup.1 htask hother (hid.trans hsame.symm)]

end Story

/-- A session that was closed has ended, and the observer was told of its fault. -/
theorem Story.ended_of_closed {id : SessionId} {deeds : List Deed} (h : roster.Story id deeds)
    {other : SessionId} {peer : SocketAddress} {fault : Option ProtocolError}
    (hclosed : .closed other peer fault ∈ deeds) :
    ∃ outcome, .ended id outcome ∈ deeds ∧ fault = outcome.fault? := by
  cases h with
  | unheard => cases hclosed
  | admitted => cases hintake : roster.intake <;> simp [hintake, Intake.done] at hclosed
  | @told task deeds _ hid htold =>
    subst hid
    unfold Task.Told at htold
    cases hstage : task.stage with
    | released =>
      rw [hstage] at htold
      obtain ⟨outcome, rfl⟩ := htold
      refine ⟨outcome, ?_, ?_⟩
      · cases outcome <;> simp [Deed.life, Deed.ending]
      · cases outcome <;> simp_all [Deed.life, Deed.admission, Deed.ending]
    | running | reporting =>
      rw [hstage] at htold
      simp [show deeds = _ from htold, Deed.admission] at hclosed
    | leaving outcome | deactivating outcome | announcing outcome =>
      rw [hstage] at htold
      cases outcome <;> simp [show deeds = _ from htold, Deed.admission, Deed.ending] at hclosed

theorem Story.told_of_split (hnodup : roster.ids.Nodup) {front back : List Task} {task : Task}
    (htasks : roster.tasks = front ++ task :: back) {deeds : List Deed}
    (h : roster.Story task.id deeds) : task.Told deeds :=
  h.told_of_mem hnodup (htasks ▸ List.mem_append_cons_self) rfl

namespace Takes

variable (htakes : roster.Takes step deed next)
include htakes

theorem books : next.books = deed.toList.foldl Deed.write roster.books := by
  cases htakes <;> rfl

theorem ids_eq : next.ids = roster.ids ++ deed.toList.filterMap Deed.issued? := by
  cases htakes with
  | socket hintake | full hintake | room hintake | reject hintake | issue hintake | enter hintake
  | count hintake | activate hintake | announce hintake | spawn hintake =>
    simp [ids, Intake.session?, hintake, Deed.issued?]
  | ending _ htasks | report htasks | leave htasks | deactivate htasks | close htasks =>
    simp [ids, htasks, Deed.issued?]

/-- Nothing happens to a session that the step is not about. -/
theorem story_of_ne {id : SessionId} (hne : deed.bind Deed.session? ≠ some id) {deeds : List Deed}
    (h : roster.Story id deeds) : next.Story id deeds := by
  cases h with
  | unheard hnot =>
    refine .unheard ?_
    rw [htakes.ids_eq, List.mem_append, not_or]
    refine ⟨hnot, fun hmem => hne ?_⟩
    obtain ⟨given, hgiven, hissued⟩ := List.mem_filterMap.mp hmem
    rw [Option.mem_toList.mp hgiven]
    exact Deed.session?_of_issued? hissued
  | admitted hsession =>
    cases htakes with
    | socket hintake | full hintake | room hintake | reject hintake | issue hintake =>
      rw [hintake] at hsession
      cases hsession
    | enter hintake | count hintake | activate hintake | announce hintake | spawn hintake =>
      rw [hintake] at hsession
      exact absurd hsession hne
    | ending | report | leave | deactivate | close => exact .admitted hsession
  | told htask hid htold =>
    cases htakes with
    | socket | full | room | reject | issue | enter | count | activate | announce =>
      exact .told htask hid htold
    | spawn => exact .told (List.mem_append_left _ htask) hid htold
    | ending _ htasks | report htasks | leave htasks | deactivate htasks | close htasks =>
      rw [htasks] at htask
      refine .told (mem_of_mem_moved ?_ htask) hid htold
      rintro rfl
      exact hne (congrArg some hid)

omit htakes in
/-- What happens to the session that the step is about, follows on what has happened to it. -/
theorem story_of_eq {deed : Deed} (htakes : roster.Takes step (some deed) next)
    (hnodup : roster.ids.Nodup) (hnew : ⟨roster.nextId⟩ ∉ roster.ids) {id : SessionId}
    (hdeed : deed.session? = some id) {deeds : List Deed} (h : roster.Story id deeds) :
    next.Story id (deeds ++ [deed]) := by
  cases htakes with
  | socket | reject => cases hdeed
  | issue =>
    cases hdeed
    rw [h.eq_nil hnew]
    exact .admitted rfl
  | enter hintake | count hintake | activate hintake | announce hintake =>
    cases hdeed
    rw [h.eq_done hnodup (by rw [hintake]; rfl), hintake]
    exact .admitted rfl
  | spawn hintake =>
    cases hdeed
    rw [h.eq_done hnodup (by rw [hintake]; rfl), hintake]
    exact .told (List.mem_append_right _ (List.mem_singleton_self _)) rfl rfl
  | ending outcome htasks =>
    cases hdeed
    have htold := Story.told_of_split hnodup htasks h
    refine .told List.mem_append_cons_self rfl ?_
    rw [show deeds = _ from htold]
    cases outcome <;> rfl
  | report htasks | leave htasks | deactivate htasks =>
    cases hdeed
    have htold := Story.told_of_split hnodup htasks h
    refine .told List.mem_append_cons_self rfl ?_
    rw [show deeds = _ from htold]
    exact List.append_assoc _ _ _
  | @close front back id peer outcome htasks =>
    cases hdeed
    have htold := Story.told_of_split hnodup htasks h
    refine .told List.mem_append_cons_self rfl ⟨outcome, ?_⟩
    rw [show deeds = _ from htold]
    exact List.append_assoc _ _ _

theorem sockets {deeds : List Deed} (h : roster.Sockets deeds) :
    next.Sockets (deeds ++ deed.toList.filter Deed.isIntake) := by
  obtain ⟨sockets, pending, rfl, hids, hpending⟩ := h
  cases htakes with
  | socket hintake =>
    rw [hintake] at hpending
    refine ⟨sockets, _, List.append_assoc _ _ _, hids, ?_⟩
    rw [show pending = _ from hpending]
    rfl
  | @full peer hintake =>
    rw [hintake] at hpending
    exact ⟨sockets, pending, List.append_nil _, hids, peer, hpending⟩
  | room hintake =>
    rw [hintake] at hpending
    exact ⟨sockets, pending, List.append_nil _, hids, hpending⟩
  | reject hintake =>
    rw [hintake] at hpending
    obtain ⟨peer, rfl⟩ := hpending
    refine ⟨sockets ++ [(peer, none)], [], ?_, by simpa using hids, rfl⟩
    simp [Deed.verdict, Deed.isIntake]
  | issue hintake | enter hintake | count hintake | activate hintake | announce hintake =>
    rw [hintake] at hpending
    refine ⟨sockets, _, List.append_assoc _ _ _, hids, ?_⟩
    rw [show pending = _ from hpending]
    rfl
  | @spawn id peer hintake =>
    rw [hintake] at hpending
    have hpending : pending = .arrived peer :: Intake.done (.spawning id peer) := hpending
    refine ⟨sockets ++ [(peer, some id)], [], ?_, by simp [hids], rfl⟩
    simp [hpending, Deed.verdict, Deed.admission, Intake.done, Deed.isIntake]
  | ending _ htasks | report htasks | leave htasks | deactivate htasks | close htasks =>
    exact ⟨sockets, pending, List.append_nil _, by simpa [htasks] using hids, hpending⟩

/-- What a step does is added to the log. -/
theorem logged (hsound : roster.Sound) (h : roster.Logged log) :
    next.Logged (log ++ deed.toList) where
  books := by rw [htakes.books, h.books, List.foldl_append]
  issued := by rw [List.filterMap_append, h.issued, htakes.ids_eq]
  story := by
    intro id
    rw [Deed.about, List.filter_append]
    cases deed with
    | none => simpa [Deed.about] using htakes.story_of_ne (by simp) (h.story id)
    | some deed =>
      by_cases hdeed : deed.session? = some id
      · have hnew : (⟨roster.nextId⟩ : SessionId) ∉ roster.ids := hsound.nextId_not_mem
        simpa [Deed.about, hdeed] using
          htakes.story_of_eq hsound.nodup_ids hnew hdeed (h.story id)
      · simpa [Deed.about, hdeed] using htakes.story_of_ne (by simpa using hdeed) (h.story id)
  sockets := by
    rw [List.filter_append]
    exact htakes.sockets h.sockets

/-- Nothing that belongs to a session changes, if the step is not about it. -/
theorem untouched {id : SessionId} (hne : deed.bind Deed.session? ≠ some id) :
    next.live.filter (·.1 = id) = roster.live.filter (·.1 = id) ∧
      next.tasks.filter (·.id = id) = roster.tasks.filter (·.id = id) := by
  have hother {other : SessionId} (hne : some other ≠ some id) : other ≠ id := fun hsame =>
    hne (congrArg some hsame)
  cases htakes with
  | socket | full | room | reject | issue | count | activate | announce => exact ⟨rfl, rfl⟩
  | enter =>
    refine ⟨?_, rfl⟩
    rw [List.filter_append, filter_entry_of_ne (hother hne)]
    simp [hother hne]
  | spawn => exact ⟨rfl, by simp [hother hne]⟩
  | ending _ htasks | report htasks | deactivate htasks | close htasks =>
    exact ⟨rfl, by simp [htasks, hother hne]⟩
  | leave htasks => exact ⟨filter_entry_of_ne (hother hne), by simp [htasks, hother hne]⟩

end Takes

/-! ## Runs -/

theorem logged_of_run? {steps : List Step} (h : roster.Sound) (hlogged : roster.Logged log)
    (hrun : roster.run? steps = some next) : next.Logged (log ++ roster.deeds steps) := by
  induction steps generalizing roster log with
  | nil =>
    cases hrun
    rwa [deeds, List.append_nil]
  | cons step steps ih =>
    obtain ⟨middle, hstep, hrest⟩ := Option.bind_eq_some_iff.mp hrun
    have htakes := takes_of_step? h.nodup_tasks hstep
    rw [deeds, hstep, ← List.append_assoc]
    exact ih (htakes.sound h) (htakes.logged h hlogged) hrest

/-- What is due can be done, whatever the other sessions do. -/
theorem Sound.due (h : roster.Sound) :
    (roster.intake ≠ .waiting → roster.intake?.isSome = true) ∧
      ∀ task ∈ roster.tasks, task.stage ≠ .running → task.stage ≠ .released →
        (roster.release? task.id).isSome = true := by
  constructor
  · intro hbusy
    unfold intake?
    cases hintake : roster.intake with
    | waiting => exact absurd hintake hbusy
    | judging =>
      dsimp only
      split <;> rfl
    | rejecting | numbering | entering | counting | activating | announcing | spawning => rfl
  · intro task htask hrunning hreleased
    unfold release?
    rw [task?_of_mem h.nodup_tasks htask]
    dsimp only
    cases hstage : task.stage with
    | running => exact absurd hstage hrunning
    | released => exact absurd hstage hreleased
    | reporting | leaving | deactivating | announcing => rfl

/-- What a server has done with its sockets and its sessions, by the log of its steps. -/
structure Accounted (limit : Nat) (log : List Deed) (last : Roster) : Prop where
  /-- The map of live sessions never holds more than the limit. -/
  length_live_le : last.live.length ≤ limit
  /-- The log has made the map, the counters and the notices what they are. -/
  books : last.books = log.foldl Deed.write {}
  /-- No number is given twice. -/
  nodup_issued : (log.filterMap Deed.issued?).Nodup
  /-- Socket after socket is rejected, without a number or a notice, or let in as a session. -/
  sockets : last.Sockets (log.filter Deed.isIntake)
  /-- Every session has got as far in its life as its task, and no further. -/
  told : ∀ task ∈ last.tasks, task.Told (Deed.about task.id log)
  /-- One that has no task yet has got as far as the intake. -/
  story : ∀ id, last.Story id (Deed.about id log)
  /-- The observer is told of a fault where the task failed or broke off. -/
  closed : ∀ id peer fault, .closed id peer fault ∈ log →
    ∃ outcome, .ended id outcome ∈ log ∧ fault = outcome.fault? ∧
      (fault = none ↔ outcome = .finished)
  /-- An active connection is never taken off none. -/
  decrement : ∀ task ∈ last.tasks, ∀ outcome, task.stage = .deactivating outcome →
    last.metrics.connectionsActive ≠ 0
  /-- Between admissions and releases the counters are those of the map. -/
  quiet : last.IsQuiet →
    last.metrics.connectionsActive.toNat = last.live.length ∧
      last.metrics.connectionsTotal.toNat =
        last.metrics.connectionsActive.toNat + last.tasks.countP (·.stage = .released)
  /-- No step changes anything that belongs to a session it is not about. -/
  untouched : ∀ step next, last.step? step = some next → ∀ id,
    (last.deed? step).bind Deed.session? ≠ some id →
      next.live.filter (·.1 = id) = last.live.filter (·.1 = id) ∧
        next.tasks.filter (·.id = id) = last.tasks.filter (·.id = id)
  /-- No step has to wait for those of another session. -/
  due : (last.intake ≠ .waiting → last.intake?.isSome = true) ∧
    ∀ task ∈ last.tasks, task.stage ≠ .running → task.stage ≠ .released →
      (last.release? task.id).isSome = true

/-- In whatever order sockets come in, tasks end, and sessions take the steps of their admission and
their release: no more sessions are live than the limit allows, each of them is let in once and let
go once, and rejected sockets leave no trace but their count. The numbers of sessions have 64 bits,
and so has the counter of active connections: they must not have run out. -/
theorem run_accounted {limit : Nat} {steps : List Step} {last : Roster}
    (hrun : Roster.run? { limit } steps = some last) (hnumbers : last.nextId ≤ Size.limit) :
    Accounted limit (Roster.deeds { limit } steps) last := by
  obtain ⟨hsound, hlimit⟩ := sound_of_run? (sound_fresh limit) hrun
  have hlimit : last.limit = limit := hlimit
  have hlogged := logged_of_run? (sound_fresh limit) (logged_fresh limit) hrun
  rw [List.nil_append] at hlogged
  have htold : ∀ task ∈ last.tasks, task.Told (Deed.about task.id _) := fun task htask =>
    (hlogged.story task.id).told_of_mem hsound.nodup_ids htask rfl
  refine ⟨hlimit ▸ hsound.room, hlogged.books, hlogged.issued ▸ hsound.nodup_ids, hlogged.sockets,
    htold, hlogged.story, fun id peer fault hclosed => ?_, fun task htask outcome hstage => ?_,
    hsound.quiet hnumbers, fun step next hstep id hne => ?_, hsound.due⟩
  · have habout : .closed id peer fault ∈ Deed.about id (Roster.deeds { limit } steps) :=
      List.mem_filter.mpr ⟨hclosed, by simp [Deed.session?]⟩
    obtain ⟨outcome, hended, rfl⟩ := (hlogged.story id).ended_of_closed habout
    exact ⟨outcome, List.mem_of_mem_filter hended, rfl, Outcome.fault?_eq_none_iff⟩
  · exact hsound.connectionsActive_ne_zero hnumbers htask (by rw [hstage]; rfl)
  · exact (takes_of_step? hsound.nodup_tasks hstep).untouched hne

def localhost (port : UInt16) : SocketAddress := .v4 [127, 0, 0, 1] port

/-- The steps of a server for one session. It turns a socket away while the task of its session
breaks off, and lets another one in while that session is being let go. -/
def handoverSteps : List Step :=
  [.socket (localhost 1), .intake, .intake, .intake, .intake, .intake, .intake, .intake,
    .socket (localhost 2), .intake, .ending ⟨1⟩ .aborted, .intake,
    .release ⟨1⟩, .socket (localhost 3), .release ⟨1⟩, .intake, .intake, .release ⟨1⟩, .intake,
    .release ⟨1⟩, .intake, .intake, .intake, .intake]

theorem run_accounted_handover : ∃ last, Roster.run? { limit := 1 } handoverSteps = some last ∧
    last.live = [(⟨2⟩, localhost 3)] ∧
    last.notices = [.opened ⟨1⟩ (localhost 1),
      .closed ⟨1⟩ (localhost 1) (some (.sessionAborted "the task panicked")),
      .opened ⟨2⟩ (localhost 3)] ∧
    (last.metrics.connectionsTotal, last.metrics.connectionsActive,
      last.metrics.connectionsRejected) = (2, 1, 1) ∧
    Accounted 1 (Roster.deeds { limit := 1 } handoverSteps) last := by
  have hresult : (Roster.run? { limit := 1 } handoverSteps).map (fun last =>
      (last.nextId, last.live, last.notices, last.metrics.connectionsTotal,
        last.metrics.connectionsActive, last.metrics.connectionsRejected)) =
      some (3, [(⟨2⟩, localhost 3)], [.opened ⟨1⟩ (localhost 1),
        .closed ⟨1⟩ (localhost 1) (some (.sessionAborted "the task panicked")),
        .opened ⟨2⟩ (localhost 3)], 2, 1, 1) := by
    cbv
  obtain ⟨last, hrun, hlast⟩ := Option.map_eq_some_iff.mp hresult
  obtain ⟨hnext, hlast⟩ := Prod.mk.inj hlast
  obtain ⟨hlive, hlast⟩ := Prod.mk.inj hlast
  obtain ⟨hnotices, hcounters⟩ := Prod.mk.inj hlast
  have hnumbers : last.nextId ≤ Size.limit := by
    rw [hnext]
    decide
  exact ⟨last, hrun, hlive, hnotices, hcounters, run_accounted hrun hnumbers⟩

end Roster

end PacketWire
