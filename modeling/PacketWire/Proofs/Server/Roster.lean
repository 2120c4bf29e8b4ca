import PacketWire.Proofs.Server.Deeds
import PacketWire.Size

/-!
# The books of a server

Whatever order the steps of the sessions come in, the map of live sessions and the counters follow
from where each session is: on the map are those that were entered and not yet removed, and those
count as active that were counted and not yet taken off. This is the invariant.

* `Takes.sound`, `sound_of_run?`: every step and every run keeps the books.
* `Sound.connectionsActive_ne_zero`: as long as a session counts as active, the counter is not zero.
* `Sound.quiet`: between admissions and releases the counters are those of the map.
-/

namespace PacketWire

namespace Metrics

variable {metrics : Metrics}

theorem connectionsTotal_connectionClosed :
    metrics.connectionClosed.connectionsTotal = metrics.connectionsTotal := by
  unfold connectionClosed
  split <;> rfl

theorem connectionsActive_connectionClosed (h : metrics.connectionsActive ≠ 0) :
    metrics.connectionClosed.connectionsActive = metrics.connectionsActive - 1 := by
  rw [connectionClosed, if_neg h]

end Metrics

/-! ## Where a session is -/

namespace Stage

/-- Whether the session is on the map. -/
def isLive : Stage → Bool
  | .running | .reporting | .leaving _ => true
  | .deactivating _ | .announcing _ | .released => false

/-- Whether the session counts as active. -/
def isActive : Stage → Bool
  | .running | .reporting | .leaving _ | .deactivating _ => true
  | .announcing _ | .released => false

/-- Whether the session is off the map, and the rest of its release is still to come. -/
def isHalfway : Stage → Bool
  | .deactivating _ | .announcing _ => true
  | .running | .reporting | .leaving _ | .released => false

end Stage

namespace Intake

/-- The session that is being let in, once it has its number. -/
def session? : Intake → Option SessionId
  | .waiting | .judging _ | .rejecting | .numbering _ => none
  | .entering id _ | .counting id _ | .activating id _ | .announcing id _
  | .spawning id _ => some id

/-- Its entry on the map, once it is there. -/
def listed? : Intake → Option (SessionId × SocketAddress)
  | .waiting | .judging _ | .rejecting | .numbering _ | .entering _ _ => none
  | .counting id peer | .activating id peer | .announcing id peer | .spawning id peer =>
    some (id, peer)

/-- Whether there has to be room on the map. -/
def needsRoom : Intake → Bool
  | .numbering _ | .entering _ _ => true
  | .waiting | .judging _ | .rejecting | .counting _ _ | .activating _ _ | .announcing _ _
  | .spawning _ _ => false

/-- Whether the session has been counted. -/
def isCounted : Intake → Bool
  | .activating _ _ | .announcing _ _ | .spawning _ _ => true
  | .waiting | .judging _ | .rejecting | .numbering _ | .entering _ _ | .counting _ _ => false

/-- Whether it has been counted as active. -/
def isActive : Intake → Bool
  | .announcing _ _ | .spawning _ _ => true
  | .waiting | .judging _ | .rejecting | .numbering _ | .entering _ _ | .counting _ _
  | .activating _ _ => false

theorem filter_entry_of_not_mem {intake : Intake} {id : SessionId}
    (h : id ∉ intake.session?.toList) :
    intake.listed?.toList.filter (·.1 ≠ id) = intake.listed?.toList := by
  refine List.filter_eq_self.mpr fun entry hentry => decide_eq_true fun hid => h ?_
  rw [Option.mem_toList] at hentry ⊢
  subst hid
  cases intake <;> cases hentry <;> rfl

theorem not_counted_of_listed? {intake : Intake} (h : intake.listed? = none) :
    intake.isCounted = false ∧ intake.isActive = false := by
  cases intake <;> first | exact ⟨rfl, rfl⟩ | cases h

theorem isActive_le (intake : Intake) :
    intake.isActive.toNat ≤ intake.session?.toList.length := by
  cases intake <;> simp [isActive, session?]

end Intake

def Task.entry (task : Task) : SessionId × SocketAddress := (task.id, task.peer)

namespace Roster

/-- The sessions that were given a number, in the order of their tasks. -/
def ids (roster : Roster) : List SessionId :=
  roster.tasks.map (·.id) ++ roster.intake.session?.toList

/-! ## The invariant -/

variable {roster next : Roster}

/-- What the books of a server say. -/
structure Sound (roster : Roster) : Prop where
  /-- Numbers are given one after another. -/
  numbered : ∃ n, roster.nextId = n + 1 ∧ roster.ids = (List.range' 1 n).map SessionId.mk
  live_eq : roster.live =
    (roster.tasks.filter (·.stage.isLive)).map Task.entry ++ roster.intake.listed?.toList
  room : roster.live.length ≤ roster.limit
  needsRoom : roster.intake.needsRoom = true → roster.live.length < roster.limit
  total : roster.metrics.connectionsTotal =
    .ofNat (roster.tasks.length + roster.intake.isCounted.toNat)
  /-- As long as there are no more sessions than the counter can count. -/
  active : roster.nextId ≤ Size.limit → roster.metrics.connectionsActive =
    .ofNat (roster.tasks.countP (·.stage.isActive) + roster.intake.isActive.toNat)

theorem sound_fresh (limit : Nat) : Sound { limit } where
  numbered := ⟨0, rfl, rfl⟩
  live_eq := rfl
  room := Nat.zero_le _
  needsRoom := by simp [Intake.needsRoom]
  total := rfl
  active := fun _ => rfl

theorem Sound.nodup_ids (h : roster.Sound) : roster.ids.Nodup := by
  obtain ⟨n, -, hids⟩ := h.numbered
  have hrange : (List.range' 1 n).Nodup := List.nodup_range'
  rw [hids]
  exact hrange.map fun a b hab => congrArg SessionId.number hab

theorem Sound.nodup_tasks (h : roster.Sound) : (roster.tasks.map (·.id)).Nodup :=
  h.nodup_ids.sublist (List.sublist_append_left _ _)

theorem Sound.length_ids (h : roster.Sound) : roster.ids.length + 1 = roster.nextId := by
  obtain ⟨n, hnext, hids⟩ := h.numbered
  rw [hids, hnext, List.length_map, List.length_range']

/-- Removing an entry takes nothing else off the map. -/
theorem filter_entries_of_not_mem {tasks : List Task} {id : SessionId}
    (h : id ∉ tasks.map (·.id)) (p : Task → Bool) :
    ((tasks.filter p).map Task.entry).filter (·.1 ≠ id) = (tasks.filter p).map Task.entry := by
  refine List.filter_eq_self.mpr fun entry hentry => ?_
  obtain ⟨task, htask, rfl⟩ := List.mem_map.mp hentry
  refine decide_eq_true fun hid => h (List.mem_map.mpr ⟨task, List.mem_of_mem_filter htask, hid⟩)

/-- There are no more active sessions than numbers that were given. -/
theorem Sound.active_lt (h : roster.Sound) :
    roster.tasks.countP (·.stage.isActive) + roster.intake.isActive.toNat < roster.nextId := by
  have hids := h.length_ids
  have htasks : roster.tasks.countP (·.stage.isActive) ≤ roster.tasks.length :=
    List.countP_le_length
  have hintake := roster.intake.isActive_le
  rw [ids, List.length_append, List.length_map] at hids
  omega

/-- The counter does not wrap. -/
theorem Sound.toNat_connectionsActive (h : roster.Sound) (hnumbers : roster.nextId ≤ Size.limit) :
    roster.metrics.connectionsActive.toNat =
      roster.tasks.countP (·.stage.isActive) + roster.intake.isActive.toNat := by
  rw [h.active hnumbers, UInt64.toNat_ofNat', Nat.mod_eq_of_lt]
  exact Nat.lt_of_lt_of_le h.active_lt hnumbers

/-- A session that counts as active is among those that are counted. -/
theorem Sound.connectionsActive_ne_zero (h : roster.Sound) (hnumbers : roster.nextId ≤ Size.limit)
    {task : Task} (htask : task ∈ roster.tasks) (hactive : task.stage.isActive = true) :
    roster.metrics.connectionsActive ≠ 0 := by
  have hpos : 0 < roster.tasks.countP (·.stage.isActive) :=
    List.countP_pos_iff.mpr ⟨task, htask, hactive⟩
  intro hzero
  have hnat := h.toNat_connectionsActive hnumbers
  rw [hzero, UInt64.toNat_zero] at hnat
  omega

theorem Sound.nextId_not_mem (h : roster.Sound) : ⟨roster.nextId⟩ ∉ roster.ids := by
  obtain ⟨n, hnext, hids⟩ := h.numbered
  rw [hids, hnext, List.mem_map]
  rintro ⟨number, hnumber, hsame⟩
  rw [List.mem_range'_1] at hnumber
  cases hsame
  omega

namespace Takes

variable {step : Step} {deed : Option Deed} (htakes : roster.Takes step deed next)
  (h : roster.Sound)
include htakes h

theorem numbered : ∃ n, next.nextId = n + 1 ∧ next.ids = (List.range' 1 n).map SessionId.mk := by
  obtain ⟨n, hnext, hids⟩ := h.numbered
  cases htakes with
  | issue hintake =>
    refine ⟨n + 1, by simp [hnext], ?_⟩
    rw [List.range'_concat]
    simpa [ids, Intake.session?, hintake, hnext, Nat.add_comm] using hids
  | socket hintake | full hintake | room hintake | reject hintake | enter hintake | count hintake
  | activate hintake | announce hintake | spawn hintake =>
    exact ⟨n, hnext, by simpa [ids, Intake.session?, hintake] using hids⟩
  | ending _ htasks | report htasks | leave htasks | deactivate htasks | close htasks =>
    exact ⟨n, hnext, by simpa [ids, htasks] using hids⟩

theorem live_eq : next.live =
    (next.tasks.filter (·.stage.isLive)).map Task.entry ++ next.intake.listed?.toList := by
  have hlive := h.live_eq
  have hnodup := h.nodup_ids
  cases htakes with
  | enter hintake =>
    -- the number is new, so there is nothing on the map to take its place
    rw [ids, hintake, Intake.session?, Option.toList_some, List.nodup_append] at hnodup
    rw [hlive, hintake, Intake.listed?, Option.toList_none, List.append_nil,
      filter_entries_of_not_mem (fun hmem => hnodup.2.2 _ hmem _ List.mem_cons_self rfl)]
    rfl
  | @leave front back id peer outcome htasks =>
    rw [ids, htasks, List.map_append, List.map_cons, List.append_assoc, List.cons_append,
      List.nodup_middle, List.nodup_cons, List.mem_append, List.mem_append, not_or, not_or]
      at hnodup
    obtain ⟨⟨hfront, hback, hintake⟩, -⟩ := hnodup
    dsimp only
    rw [hlive, List.filter_append, Intake.filter_entry_of_not_mem hintake, htasks,
      List.filter_append, List.map_append, List.filter_append, filter_entries_of_not_mem hfront]
    simpa [Stage.isLive, Task.entry] using filter_entries_of_not_mem hback (·.stage.isLive)
  | socket hintake | full hintake | room hintake | reject hintake | issue hintake | count hintake
  | activate hintake | announce hintake | spawn hintake =>
    simpa [Intake.listed?, hintake, Stage.isLive, Task.entry] using hlive
  | ending outcome htasks =>
    cases outcome <;> simpa [htasks, Stage.isLive, Task.entry, Outcome.stage] using hlive
  | report htasks | deactivate htasks | close htasks =>
    simpa [htasks, Stage.isLive, Task.entry] using hlive

theorem total : next.metrics.connectionsTotal =
    .ofNat (next.tasks.length + next.intake.isCounted.toNat) := by
  have htotal := h.total
  cases htakes with
  | count hintake =>
    simpa [Intake.isCounted, hintake, Metrics.countConnection] using htotal
  | socket hintake | full hintake | room hintake | reject hintake | issue hintake | enter hintake
  | activate hintake | announce hintake | spawn hintake =>
    simpa [Intake.isCounted, hintake, Metrics.connectionRejected, Metrics.countActive] using htotal
  | ending _ htasks | report htasks | leave htasks | close htasks =>
    simpa [htasks, Metrics.protocolError] using htotal
  | deactivate htasks =>
    rw [Metrics.connectionsTotal_connectionClosed]
    simpa [htasks] using htotal

theorem active (hnumbers : next.nextId ≤ Size.limit) : next.metrics.connectionsActive =
    .ofNat (next.tasks.countP (·.stage.isActive) + next.intake.isActive.toNat) := by
  cases htakes with
  | issue hintake =>
    have hactive := h.active (Nat.le_of_succ_le hnumbers)
    simpa [Intake.isActive, hintake] using hactive
  | @deactivate front back id peer outcome htasks =>
    have hactive := h.active hnumbers
    have hne := h.connectionsActive_ne_zero hnumbers (htasks ▸ List.mem_append_cons_self) rfl
    have hone : roster.tasks.countP (·.stage.isActive) =
        (front ++ ⟨id, peer, .announcing outcome⟩ :: back).countP (·.stage.isActive) + 1 := by
      rw [htasks, List.countP_append, List.countP_append, List.countP_cons_of_pos rfl,
        List.countP_cons_of_neg (by simp [Stage.isActive]), Nat.add_assoc]
    rw [Metrics.connectionsActive_connectionClosed hne, hactive, hone, Nat.add_right_comm,
      UInt64.ofNat_add _ 1]
    exact UInt64.add_sub_cancel _ _
  | activate hintake =>
    have hactive := h.active hnumbers
    simpa [Intake.isActive, hintake, Metrics.countActive] using hactive
  | spawn hintake =>
    have hactive := h.active hnumbers
    simpa [Intake.isActive, hintake, Stage.isActive] using hactive
  | socket hintake | full hintake | room hintake | reject hintake | enter hintake | count hintake
  | announce hintake =>
    have hactive := h.active hnumbers
    simpa [Intake.isActive, hintake, Metrics.connectionRejected, Metrics.countConnection]
      using hactive
  | ending outcome htasks =>
    have hactive := h.active hnumbers
    cases outcome <;> simpa [htasks, Stage.isActive, Outcome.stage] using hactive
  | report htasks | leave htasks | close htasks =>
    have hactive := h.active hnumbers
    simpa [htasks, Stage.isActive, Metrics.protocolError] using hactive

omit h in
theorem limit_eq : next.limit = roster.limit := by
  cases htakes <;> rfl

theorem length_live_le : next.live.length ≤ next.limit ∧
    (next.intake.needsRoom = true → next.live.length < next.limit) := by
  have hroom := h.room
  have hneeds := h.needsRoom
  cases htakes with
  | @enter id peer hintake =>
    have hroom := hneeds (by rw [hintake]; rfl)
    have hle := roster.live.length_filter_le (·.1 ≠ id)
    refine ⟨?_, by simp [Intake.needsRoom]⟩
    dsimp only
    rw [List.length_append, List.length_singleton]
    exact Nat.lt_of_le_of_lt hle hroom
  | room hintake hroom => exact ⟨Nat.le_of_lt hroom, fun _ => hroom⟩
  | issue hintake =>
    have hroom := hneeds (by rw [hintake]; rfl)
    exact ⟨Nat.le_of_lt hroom, fun _ => hroom⟩
  | @leave _ _ id =>
    have hle := roster.live.length_filter_le (·.1 ≠ id)
    exact ⟨Nat.le_trans hle hroom, fun hneed => Nat.lt_of_le_of_lt hle (hneeds hneed)⟩
  | socket | full | reject | count | activate | announce | spawn =>
    exact ⟨hroom, fun hneed => (by cases hneed)⟩
  | ending | report | deactivate | close => exact ⟨hroom, hneeds⟩

theorem sound : next.Sound where
  numbered := htakes.numbered h
  live_eq := htakes.live_eq h
  room := (htakes.length_live_le h).1
  needsRoom := (htakes.length_live_le h).2
  total := htakes.total h
  active := htakes.active h

end Takes

/-! ## What the books say -/

/-- No session is half let in or half let go. -/
structure IsQuiet (roster : Roster) : Prop where
  intake : roster.intake.listed? = none
  tasks : ∀ task ∈ roster.tasks, task.stage.isHalfway = false

namespace Sound

variable (h : roster.Sound)
include h

/-- When no session is half let in or half let go, the active sessions are those on the map, and
those that were counted and are not released. -/
theorem quiet (hnumbers : roster.nextId ≤ Size.limit) (hquiet : roster.IsQuiet) :
    roster.metrics.connectionsActive.toNat = roster.live.length ∧
      roster.metrics.connectionsTotal.toNat =
        roster.metrics.connectionsActive.toNat +
          roster.tasks.countP (·.stage = .released) := by
  obtain ⟨hentry, hstages⟩ := hquiet
  obtain ⟨hcounted, hcounting⟩ := Intake.not_counted_of_listed? hentry
  have hactive := h.toNat_connectionsActive hnumbers
  have hlive : roster.live.length = roster.tasks.countP (·.stage.isLive) := by
    rw [h.live_eq, hentry, Option.toList_none, List.append_nil, List.length_map,
      List.countP_eq_length_filter]
  have hsame : roster.tasks.countP (·.stage.isActive) = roster.tasks.countP (·.stage.isLive) :=
    List.countP_congr fun task htask => by
      have hstage := hstages task htask
      cases hcase : task.stage <;> simp_all [Stage.isHalfway, Stage.isActive, Stage.isLive]
  have hsplit : roster.tasks.length =
      roster.tasks.countP (·.stage.isActive) + roster.tasks.countP (·.stage = .released) := by
    rw [List.length_eq_countP_add_countP (·.stage.isActive)]
    refine congrArg _ (List.countP_congr fun task htask => ?_)
    have hstage := hstages task htask
    cases hcase : task.stage <;> simp_all [Stage.isHalfway, Stage.isActive]
  have hlt : roster.tasks.length < 2 ^ 64 := by
    have hids := h.length_ids
    rw [ids, List.length_append, List.length_map] at hids
    have hlimit : Size.limit = 2 ^ 64 := by decide
    omega
  have htotal := h.total
  rw [hcounted, Bool.toNat_false, Nat.add_zero] at htotal
  rw [hcounting, Bool.toNat_false, Nat.add_zero] at hactive
  rw [hactive, hlive, htotal, UInt64.toNat_ofNat_of_lt' hlt]
  exact ⟨hsame, hsplit⟩

end Sound

/-- The books are kept in every order of steps. -/
theorem sound_of_run? {steps : List Step} (h : roster.Sound)
    (hrun : roster.run? steps = some next) : next.Sound ∧ next.limit = roster.limit := by
  induction steps generalizing roster with
  | nil =>
    cases hrun
    exact ⟨h, rfl⟩
  | cons step steps ih =>
    obtain ⟨middle, hstep, hrest⟩ := Option.bind_eq_some_iff.mp hrun
    have htakes := takes_of_step? h.nodup_tasks hstep
    obtain ⟨hnext, hlimit⟩ := ih (htakes.sound h) hrest
    exact ⟨hnext, hlimit.trans htakes.limit_eq⟩

end Roster

end PacketWire
