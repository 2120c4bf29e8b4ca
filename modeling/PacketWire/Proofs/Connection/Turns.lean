import PacketWire.Proofs.Connection.Work
import PacketWire.Proofs.Stream.Chunks

/-!
# Packets dealt with one after another

A connection deals with packets in turns, each at the desk that the turn before it left. Whatever
happens to it, its desk changes by turns and by nothing else, and once a turn ends it there are no
more.

* `Desk.serveAll`: packets served at a desk one after another, until a turn ends the connection.
* `Pumps`: what `pump` does, turn by turn; its induction follows the turns.
* `Pumps.reads`: the turns of `pump` serve the packets that are read off the buffer.
-/

namespace PacketWire

namespace Connection

/-! ## Turns at a desk -/

/-- Serves packets one after another, until a turn ends the connection. -/
def Desk.serveAll (services : Services) (clock : Clock) : Desk → List Frame → List Turn
  | _, [] => []
  | desk, frame :: rest =>
    let t := desk.serve services clock frame
    t :: match t.outcome? with
      | some _ => []
      | none => t.left.serveAll services clock rest

/-- The desk that is left after some turns. -/
def Desk.leave : Desk → List Turn → Desk
  | desk, [] => desk
  | _, t :: rest => t.left.leave rest

/-- How some turns end the connection, if they do. -/
def outcomeOf (turns : List Turn) : Option Outcome := turns.getLast?.bind Turn.outcome?

section

variable {services : Services} {clock : Clock}

theorem outcomeOf_append {turns : List Turn} (h : outcomeOf turns = none) (more : List Turn) :
    outcomeOf (turns ++ more) = outcomeOf more := by
  cases hmore : more.getLast? with
  | none => rw [List.getLast?_eq_none_iff.mp hmore, List.append_nil, h]; rfl
  | some t => rw [outcomeOf, outcomeOf, List.getLast?_append, hmore, Option.some_or]

theorem outcomeOf_cons {t : Turn} (h : t.outcome? = none) (turns : List Turn) :
    outcomeOf (t :: turns) = outcomeOf turns := by
  have hone : outcomeOf [t] = none := h
  exact outcomeOf_append hone turns

theorem Desk.leave_append (desk : Desk) (turns more : List Turn) :
    desk.leave (turns ++ more) = (desk.leave turns).leave more := by
  induction turns generalizing desk with
  | nil => rfl
  | cons t turns ih => exact ih t.left

/-- Serving more packets goes on at the desk that is left. -/
theorem Desk.serveAll_append {desk : Desk} {frames : List Frame}
    (h : outcomeOf (desk.serveAll services clock frames) = none) (more : List Frame) :
    desk.serveAll services clock (frames ++ more) =
      desk.serveAll services clock frames ++
        (desk.leave (desk.serveAll services clock frames)).serveAll services clock more := by
  induction frames generalizing desk with
  | nil => rfl
  | cons frame frames ih =>
    rw [List.cons_append, serveAll, serveAll]
    rw [serveAll] at h
    cases houtcome : (desk.serve services clock frame).outcome? with
    | some outcome =>
      rw [houtcome] at h
      exact absurd (h.symm.trans houtcome) (by simp)
    | none =>
      rw [houtcome] at h
      dsimp only at h ⊢
      rw [outcomeOf_cons houtcome] at h
      rw [ih h]
      rfl

theorem Desk.serveAll_of_outcome {desk : Desk} {frames : List Frame} {outcome : Outcome}
    (h : outcomeOf (desk.serveAll services clock frames) = some outcome) (more : List Frame) :
    desk.serveAll services clock (frames ++ more) = desk.serveAll services clock frames := by
  induction frames generalizing desk with
  | nil => cases h
  | cons frame frames ih =>
    rw [List.cons_append, serveAll, serveAll]
    rw [serveAll] at h
    cases houtcome : (desk.serve services clock frame).outcome? with
    | some _ => rfl
    | none =>
      rw [houtcome] at h
      dsimp only at h ⊢
      rw [outcomeOf_cons houtcome] at h
      rw [ih h]

/-- A turn that ends the connection is the last of its service. -/
theorem Desk.outcomeOf_of_mem {desk : Desk} {frames : List Frame} {t : Turn} {outcome : Outcome}
    (ht : t ∈ desk.serveAll services clock frames) (houtcome : t.outcome? = some outcome) :
    outcomeOf (desk.serveAll services clock frames) = some outcome := by
  induction frames generalizing desk with
  | nil => cases ht
  | cons frame frames ih =>
    rw [serveAll] at ht ⊢
    rcases List.mem_cons.mp ht with rfl | hrest
    · rw [houtcome]
      exact houtcome
    · split at hrest
      · cases hrest
      · next hnone =>
        rw [outcomeOf_cons hnone]
        exact ih hrest

/-- Packets are served in order, each once. Those that are not served come behind a turn that ends
the connection. -/
theorem Desk.serveAll_frames (services : Services) (clock : Clock) (desk : Desk)
    (frames : List Frame) :
    (desk.serveAll services clock frames).map (·.frame) <+: frames ∧
      (outcomeOf (desk.serveAll services clock frames) = none →
        (desk.serveAll services clock frames).map (·.frame) = frames) := by
  induction frames generalizing desk with
  | nil => exact ⟨List.prefix_rfl, fun _ => rfl⟩
  | cons frame frames ih =>
    rw [serveAll, List.map_cons, (desk.serve_frame frame).1, List.prefix_cons_inj]
    generalize desk.serve services clock frame = t
    cases houtcome : t.outcome? with
    | some outcome =>
      exact ⟨List.nil_prefix, fun hnone => absurd (houtcome.symm.trans hnone) (by simp)⟩
    | none =>
      obtain ⟨hserved, hall⟩ := ih t.left
      refine ⟨hserved, fun hnone => congrArg _ (hall ?_)⟩
      rwa [outcomeOf_cons houtcome] at hnone

theorem Desk.serve_of_mem {desk : Desk} {frames : List Frame} {t : Turn}
    (ht : t ∈ desk.serveAll services clock frames) : t.before.serve services clock t.frame = t := by
  induction frames generalizing desk with
  | nil => cases ht
  | cons frame frames ih =>
    rw [serveAll] at ht
    rcases List.mem_cons.mp ht with rfl | hrest
    · rw [(desk.serve_frame frame).1, (desk.serve_frame frame).2]
    · split at hrest
      · cases hrest
      · exact ih hrest

/-- Only the last turn of a service may end the connection. -/
theorem Desk.outcome?_of_mem_dropLast {desk : Desk} {frames : List Frame} {t : Turn}
    (ht : t ∈ (desk.serveAll services clock frames).dropLast) : t.outcome? = none := by
  induction frames generalizing desk with
  | nil => cases ht
  | cons frame frames ih =>
    rw [serveAll] at ht
    cases houtcome : (desk.serve services clock frame).outcome? with
    | some outcome =>
      rw [houtcome] at ht
      cases ht
    | none =>
      rw [houtcome] at ht
      dsimp only at ht
      generalize hrest : (desk.serve services clock frame).left.serveAll services clock frames =
        turns at ht
      cases turns with
      | nil => cases ht
      | cons u turns =>
        rw [List.dropLast_cons_cons] at ht
        rcases List.mem_cons.mp ht with rfl | hmem
        · exact houtcome
        · exact ih (hrest ▸ hmem)

theorem Turn.outcome?_eq_none_iff {t : Turn} :
    t.outcome? = none ↔ t.stop = none ∧ t.after.session.isClosing = false := by
  unfold outcome?
  cases t.stop with
  | some stop => cases stop <;> simp
  | none => simp

theorem Turn.outcome?_eq_finished_iff {t : Turn} :
    t.outcome? = some .finished ↔ t.stop = none ∧ t.after.session.isClosing = true := by
  unfold outcome?
  cases t.stop with
  | some stop => cases stop <;> simp
  | none => simp

/-- The queue is empty when a packet's turn comes. -/
theorem Desk.outbox_of_mem {desk : Desk} (h : desk.session.outbox = []) {frames : List Frame}
    {t : Turn} (ht : t ∈ desk.serveAll services clock frames) : t.before.session.outbox = [] := by
  induction frames generalizing desk with
  | nil => cases ht
  | cons frame frames ih =>
    rw [serveAll] at ht
    rcases List.mem_cons.mp ht with rfl | hrest
    · rw [(desk.serve_frame frame).2]
      exact h
    · split at hrest
      · cases hrest
      · next houtcome =>
        have hstop := (Turn.outcome?_eq_none_iff.mp houtcome).1
        exact ih (by rw [Turn.left, hstop]; rfl) hrest

end

/-! ## Turns of a connection -/

/-- The turns in which `pump` deals with the packets that are complete. -/
def turns (clock : Clock) (c : Connection) : List Turn :=
  if c.session.isClosing then []
  else
    match c.services.reader.next c.buffer with
    | .error _ | .ok none => []
    | .ok (some (frame, _)) =>
      c.desk.serve c.services clock frame ::
        match (Work.takeFrame clock).run c with
        | .error _ _ | .ok false _ => []
        | .ok true after => if after.buffer.length < c.buffer.length then turns clock after else []
termination_by c.buffer.length

/-- What `pump` does: it ends a session that is closing, stops at a fault, waits for more bytes,
takes a turn that cannot be answered, or takes one and goes on. -/
inductive Pumps (clock : Clock) : Connection → List Turn → Connection → Prop
  | closed {c : Connection} : c.session.isClosing = true → Pumps clock c [] (c.finish .finished)
  | failed {c : Connection} {fault : ProtocolError} :
      c.session.isClosing = false → c.services.reader.next c.buffer = .error fault →
      Pumps clock c []
        (({ c with metrics := c.metrics.readFailed fault }).finish (.failed fault))
  | waits {c : Connection} : c.session.isClosing = false →
      c.services.reader.next c.buffer = .ok none → Pumps clock c [] c
  | stopped {c : Connection} {frame : Frame} {rest : Bytes} {t : Turn} {stop : Halt} :
      c.session.isClosing = false →
      c.services.reader.next c.buffer = .ok (some (frame, rest)) → rest.length < c.buffer.length →
      c.desk.serve c.services clock frame = t → t.stop = some stop →
      Pumps clock c [t] ((c.served t rest (c.counted clock t)).halt stop)
  | unwritten {c : Connection} {frame : Frame} {rest : Bytes} {t : Turn} {error : StreamError} :
      c.session.isClosing = false →
      c.services.reader.next c.buffer = .ok (some (frame, rest)) → rest.length < c.buffer.length →
      c.desk.serve c.services clock frame = t → t.stop = none →
      (deliver c.writeFault t.replies).error = some error →
      Pumps clock c [t]
        ((c.served t rest (c.counted clock t)).finish (.failed (Work.peerGone error)))
  | goesOn {c last : Connection} {frame : Frame} {rest : Bytes} {t : Turn} {turns : List Turn} :
      c.session.isClosing = false →
      c.services.reader.next c.buffer = .ok (some (frame, rest)) → rest.length < c.buffer.length →
      c.desk.serve c.services clock frame = t → t.stop = none →
      (deliver c.writeFault t.replies).error = none →
      Pumps clock (c.served t rest (c.counted clock t)) turns last → Pumps clock c (t :: turns) last

theorem pumps (clock : Clock) {c : Connection} (hsound : c.services.registry.Sound) :
    Pumps clock c (c.turns clock) (c.pump clock) := by
  induction hn : c.buffer.length using Nat.strongRecOn generalizing c with
  | ind n ih =>
    subst hn
    rw [turns, pump]
    by_cases hclosing : c.session.isClosing = true
    · rw [if_pos hclosing, if_pos hclosing]
      exact .closed hclosing
    · have hopen : c.session.isClosing = false := Bool.eq_false_iff.mpr hclosing
      rw [if_neg hclosing, if_neg hclosing]
      cases hnext : c.services.reader.next c.buffer with
      | error fault =>
        rw [Work.run_takeFrame_of_error hnext]
        exact .failed hopen hnext
      | ok found =>
        cases found with
        | none =>
          rw [Work.run_takeFrame_of_none hnext]
          exact .waits hopen hnext
        | some pair =>
          obtain ⟨frame, rest⟩ := pair
          have hshort := FrameReader.length_lt_of_frame hsound hnext
          dsimp only
          generalize hserve : c.desk.serve c.services clock frame = t
          cases hstop : t.stop with
          | some stop =>
            rw [Work.run_takeFrame_of_stop hnext hserve hstop]
            exact .stopped hopen hnext hshort hserve hstop
          | none =>
            rw [Work.run_takeFrame_of_goesOn hnext hserve hstop]
            cases hwrite : (deliver c.writeFault t.replies).error with
            | some error => exact .unwritten hopen hnext hshort hserve hstop hwrite
            | none =>
              have hbuffer : (c.served t rest (c.counted clock t)).buffer.length <
                  c.buffer.length := hshort
              dsimp only
              rw [if_pos hbuffer, if_pos hbuffer]
              have hrest := ih _ hbuffer (c := c.served t rest (c.counted clock t)) hsound rfl
              exact .goesOn hopen hnext hshort hserve hstop hwrite hrest

/-- A turn that is not stopped ends the connection where it leaves the session closing. -/
theorem Turn.outcome?_of_stop {t : Turn} (h : t.stop = none) :
    t.outcome? = if t.left.session.isClosing then some .finished else none := by
  rw [outcome?, left, h]
  rfl

theorem Turn.outcome?_ne_none {t : Turn} {stop : Halt} (h : t.stop = some stop) :
    t.outcome? ≠ none := by
  rw [outcome?, h]
  cases stop <;> simp

namespace Pumps

variable {clock : Clock} {c last : Connection} {turns : List Turn}

theorem eq_nil (h : Pumps clock c turns last) (hclosing : c.session.isClosing = true) :
    turns = [] ∧ last = c.finish .finished := by
  cases h with
  | closed _ => exact ⟨rfl, rfl⟩
  | failed hopen | waits hopen | stopped hopen | unwritten hopen | goesOn hopen =>
    rw [hclosing] at hopen
    cases hopen

theorem services_eq (h : Pumps clock c turns last) : last.services = c.services := by
  induction h with
  | closed | failed | waits | unwritten => rfl
  | @stopped _ _ _ _ stop => cases stop <;> rfl
  | goesOn _ _ _ _ _ _ _ ih => exact ih

/-- A stream that does not fail does not begin to. -/
theorem writeFault_eq_none (h : Pumps clock c turns last) (hwrite : c.writeFault = none) :
    last.writeFault = none := by
  induction h with
  | closed | failed | waits => exact hwrite
  | @stopped c _ _ t stop =>
    have hlater := ((deliver_sound c.writeFault t.replies).faultless hwrite).1
    cases stop <;> exact hlater
  | @unwritten c _ _ t => exact ((deliver_sound c.writeFault t.replies).faultless hwrite).1
  | @goesOn c _ _ _ t _ _ _ _ _ _ _ _ ih =>
    exact ih ((deliver_sound c.writeFault t.replies).faultless hwrite).1

/-- The desk changes by turns and by nothing else. -/
theorem desk_eq (h : Pumps clock c turns last) : last.desk = c.desk.leave turns := by
  induction h with
  | closed | failed | waits | unwritten => rfl
  | @stopped _ _ _ _ stop => cases stop <;> rfl
  | goesOn _ _ _ _ _ _ _ ih => exact ih

theorem isClosing_eq_false (h : Pumps clock c turns last) (hlast : last.outcome = none) :
    last.session.isClosing = false := by
  induction h with
  | closed | failed | unwritten => cases hlast
  | waits hopen => exact hopen
  | @stopped _ _ _ _ stop => cases stop <;> cases hlast
  | goesOn _ _ _ _ _ _ _ ih => exact ih hlast

/-- The last turn ends the connection, if it is one that does. Only where a closing session could
not be written to is that fault the end. -/
theorem outcome_eq (h : Pumps clock c turns last) {outcome : Outcome}
    (houtcome : outcomeOf turns = some outcome) :
    last.outcome = some outcome ∨ outcome = .finished ∧ ∃ fault, last.writeFault = some fault ∧
      last.outcome = some (.failed (Work.peerGone fault.error)) := by
  induction h with
  | closed | failed | waits => cases houtcome
  | @stopped c frame rest t stop _ _ _ _ hstop =>
    rw [show outcomeOf [t] = t.outcome? from rfl, Turn.outcome?, hstop] at houtcome
    cases stop <;> (cases houtcome; exact .inl rfl)
  | @unwritten c frame rest t error _ _ _ _ hstop hwrite =>
    obtain ⟨fault, hfault, rfl⟩ := (deliver_sound c.writeFault t.replies).failed hwrite
    rw [show outcomeOf [t] = t.outcome? from rfl, Turn.outcome?_of_stop hstop] at houtcome
    split at houtcome
    · cases houtcome
      exact .inr ⟨rfl, fault, hfault, rfl⟩
    · cases houtcome
  | @goesOn c last frame rest t turns _ _ _ _ hstop _ hrest ih =>
    by_cases hclosing : t.left.session.isClosing = true
    · obtain ⟨rfl, rfl⟩ := hrest.eq_nil hclosing
      rw [show outcomeOf [t] = t.outcome? from rfl, Turn.outcome?_of_stop hstop,
        if_pos hclosing] at houtcome
      cases houtcome
      exact .inl rfl
    · have hgoes := (Turn.outcome?_of_stop hstop).trans (if_neg hclosing)
      rw [outcomeOf_cons hgoes] at houtcome
      exact ih houtcome

/-- The turns serve their packets one after another. -/
theorem serves (h : Pumps clock c turns last) :
    turns = c.desk.serveAll c.services clock (turns.map (·.frame)) := by
  induction h with
  | closed | failed | waits => rfl
  | @stopped c frame rest t stop _ _ _ hserve hstop =>
    subst hserve
    rw [List.map_cons, (c.desk.serve_frame frame).1, List.map_nil, Desk.serveAll]
    cases (c.desk.serve c.services clock frame).outcome? <;> rfl
  | @unwritten c frame rest t fault _ _ _ hserve =>
    subst hserve
    rw [List.map_cons, (c.desk.serve_frame frame).1, List.map_nil, Desk.serveAll]
    cases (c.desk.serve c.services clock frame).outcome? <;> rfl
  | @goesOn c last frame rest t turns _ _ _ hserve hstop _ hrest ih =>
    subst hserve
    rw [List.map_cons, (c.desk.serve_frame frame).1, Desk.serveAll, Turn.outcome?_of_stop hstop]
    by_cases hclosing : (c.desk.serve c.services clock frame).left.session.isClosing = true
    · rw [(hrest.eq_nil hclosing).1, if_pos hclosing]
    · rw [if_neg hclosing]
      exact congrArg _ ih

/-- Where writes succeed, the replies of a turn are written. -/
theorem written_served {c : Connection} (hwrite : c.writeFault = none) {t : Turn} (rest : Bytes)
    (metrics : Metrics) :
    (c.served t rest metrics).written = c.written ++ t.replies.flatten := by
  have hsound := deliver_sound c.writeFault t.replies
  exact congrArg (c.written ++ ·) (hsound.complete (hsound.faultless hwrite).2).2

/-- Where writes succeed, the turns serve the packets that are read off the buffer, and what they
queue is written. Unless the last turn ends the connection, it goes on with what is left over, or
ends by the fault that stopped the reading. -/
theorem reads (h : Pumps clock c turns last) (hopen : c.session.isClosing = false)
    (hwrite : c.writeFault = none) (houtcome : c.outcome = none) :
    turns = c.desk.serveAll c.services clock (c.services.reader.read c.buffer).frames ∧
      last.written = c.written ++ (turns.flatMap Turn.replies).flatten ∧
      (outcomeOf turns = none → match (c.services.reader.read c.buffer).fault with
        | some fault => last.outcome = some (.failed fault)
        | none => last.outcome = none ∧ last.buffer = (c.services.reader.read c.buffer).left) := by
  induction h with
  | closed hclosing =>
    rw [hclosing] at hopen
    cases hopen
  | failed _ hnext =>
    rw [FrameReader.read_of_error hnext]
    exact ⟨rfl, (List.append_nil _).symm, fun _ => rfl⟩
  | waits _ hnext =>
    rw [FrameReader.read_of_none hnext]
    exact ⟨rfl, (List.append_nil _).symm, fun _ => ⟨houtcome, rfl⟩⟩
  | @stopped c frame rest t stop _ hnext hshort hserve hstop =>
    rw [FrameReader.read_of_frame hnext hshort]
    subst hserve
    obtain ⟨outcome, hends⟩ := Option.ne_none_iff_exists'.mp (Turn.outcome?_ne_none hstop)
    refine ⟨?_, ?_, fun hnone => ?_⟩
    · rw [FrameReader.Reading.after, List.singleton_append, Desk.serveAll, hends]
    · rw [List.flatMap_singleton, ← written_served hwrite rest (c.counted clock _)]
      cases stop <;> rfl
    · exact absurd (hnone.symm.trans hends) (by simp)
  | @unwritten c _ _ t _ _ _ _ _ _ herror =>
    rw [((deliver_sound c.writeFault t.replies).faultless hwrite).2] at herror
    cases herror
  | @goesOn c last frame rest t turns _ hnext hshort hserve hstop _ hrest ih =>
    have hlater := ((deliver_sound c.writeFault t.replies).faultless hwrite).1
    rw [FrameReader.read_of_frame hnext hshort]
    subst hserve
    rw [FrameReader.Reading.after, List.singleton_append, Desk.serveAll,
      Turn.outcome?_of_stop hstop, List.flatMap_cons, List.flatten_append, ← List.append_assoc,
      ← written_served hwrite rest (c.counted clock _)]
    by_cases hclosing : (c.desk.serve c.services clock frame).left.session.isClosing = true
    · obtain ⟨rfl, rfl⟩ := hrest.eq_nil hclosing
      have hends : outcomeOf [c.desk.serve c.services clock frame] = some .finished :=
        (Turn.outcome?_of_stop hstop).trans (if_pos hclosing)
      rw [if_pos hclosing]
      exact ⟨rfl, (List.append_nil _).symm, fun hnone => absurd (hnone.symm.trans hends) (by simp)⟩
    · obtain ⟨hturns, hwritten, hends⟩ := ih (Bool.eq_false_iff.mpr hclosing) hlater houtcome
      have hgoes := (Turn.outcome?_of_stop hstop).trans (if_neg hclosing)
      rw [if_neg hclosing]
      refine ⟨congrArg _ hturns, hwritten, fun hnone => hends ?_⟩
      rwa [outcomeOf_cons hgoes] at hnone

end Pumps

end Connection

end PacketWire
