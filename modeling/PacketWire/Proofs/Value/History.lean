import Mathlib.Data.List.Induction
import Mathlib.Data.List.Nodup
import PacketWire.Value.Basic

/-!
# What a record remembers of its history

A record starts out empty, and names are set in it and taken from it. What it then holds is told by
the history alone: under a name, what was set there last, unless the name was taken since; and the
names in the order in which they came in, a name that was taken coming in anew.

* `Fields.get?_erase`, `Fields.names_erase`: taking a name, as setting one is described beside the
  definition.
* `Record.get?_replay`: under a name stands what was set there last.
* `Record.mem_names_replay`, `Record.pairwise_names_replay`: the names, in the order of coming in.
-/

namespace PacketWire

/-! ## Entries -/

namespace Fields

variable {α : Type} {fields : Fields α} {name : String} {value : α}

theorem get?_eq_none_iff : fields.get? name = none ↔ name ∉ fields.names := by
  rw [get?, List.lookup_eq_none_iff, names, List.mem_map]
  constructor
  · rintro h ⟨entry, hentry, rfl⟩
    simpa using h entry hentry
  · intro h entry hentry
    simpa using fun heq : name = entry.1 => h ⟨entry, hentry, heq.symm⟩

theorem mem_names_iff : name ∈ fields.names ↔ ∃ value, fields.get? name = some value := by
  rw [← Option.isSome_iff_exists, Option.isSome_iff_ne_none, ne_eq, get?_eq_none_iff, not_not]

theorem mem_entries_of_get? (h : fields.get? name = some value) : (name, value) ∈ fields.entries := by
  obtain ⟨front, back, hentries, -⟩ := List.lookup_eq_some_iff.mp h
  rw [hentries]
  exact List.mem_append_right _ List.mem_cons_self

/-- The value under a name is that of any entry of the name, where names are different. -/
theorem get?_eq_some_iff (h : fields.names.Nodup) :
    fields.get? name = some value ↔ (name, value) ∈ fields.entries := by
  refine ⟨mem_entries_of_get?, fun hentry => ?_⟩
  have hmem : name ∈ fields.names := List.mem_map_of_mem (f := Prod.fst) hentry
  obtain ⟨found, hfound⟩ := mem_names_iff.mp hmem
  have heq := List.inj_on_of_nodup_map h (mem_entries_of_get? hfound) hentry rfl
  cases heq
  exact hfound

theorem names_erase (fields : Fields α) (name : String) :
    (fields.erase name).names = fields.names.erase name := by
  rw [names, names, List.erase_eq_eraseP', List.eraseP_map]
  rfl

/-- Taking a name leaves the values under all others. -/
theorem get?_erase (h : fields.names.Nodup) (name other : String) :
    (fields.erase name).get? other = if other = name then none else fields.get? other := by
  by_cases hother : other = name
  · rw [if_pos hother, get?_eq_none_iff, names_erase, hother]
    exact h.not_mem_erase
  · rw [if_neg hother]
    apply Option.ext
    intro value
    rw [get?_eq_some_iff h, get?_eq_some_iff (nodup_names_erase h name)]
    exact List.mem_eraseP_of_neg (by simpa using hother)

end Fields

/-! ## Histories -/

namespace Record

/-- What is done to a record. -/
inductive Action where
  | set (name : String) (value : Value)
  | take (name : String)

/-- The name that an action is about. -/
def Action.name : Action → String
  | set name _ | take name => name

/-- The record after an action. -/
def act (record : Record) : Action → Record
  | .set name value => record.set name value
  | .take name => (record.take name).2

/-- The record that a history leaves, the first action having found it empty. -/
def replay (history : List Action) : Record := history.foldl act Fields.empty

/-- The name was set to the value, and nothing was done about it since. -/
def LastSet (history : List Action) (name : String) (value : Value) : Prop :=
  ∃ earlier later, history = earlier ++ .set name value :: later ∧
    ∀ action ∈ later, action.name ≠ name

/-- Whenever the name was set, it was taken later. -/
def Absent (history : List Action) (name : String) : Prop :=
  ∀ earlier value later, history = earlier ++ .set name value :: later → .take name ∈ later

/-- The action at an index set the name when it was absent, and the name was not taken since. -/
def EnteredAt (history : List Action) (name : String) (index : Nat) : Prop :=
  ∃ earlier value later, history = earlier ++ .set name value :: later ∧ earlier.length = index ∧
    Absent earlier name ∧ .take name ∉ later

section Steps

variable {history : List Action} {action : Action} {name : String}

/-- What is found in a longer history is its last action, or was there before. -/
theorem concat_eq_append_cons_iff {α : Type} {items earlier later : List α} {a b : α} :
    items ++ [a] = earlier ++ b :: later ↔
      (b = a ∧ earlier = items ∧ later = []) ∨
        ∃ front, later = front ++ [a] ∧ items = earlier ++ b :: front := by
  constructor
  · intro h
    rcases List.eq_nil_or_concat' later with rfl | ⟨front, last, rfl⟩
    · obtain ⟨rfl, hlast⟩ := List.append_inj' h rfl
      exact .inl ⟨(List.cons.inj hlast).1.symm, rfl, rfl⟩
    · rw [← List.cons_append, ← List.append_assoc] at h
      obtain ⟨rfl, hlast⟩ := List.append_inj' h rfl
      rw [(List.cons.inj hlast).1]
      exact .inr ⟨front, rfl, rfl⟩
  · rintro (⟨rfl, rfl, rfl⟩ | ⟨front, rfl, rfl⟩)
    · rfl
    · simp

theorem replay_concat (history : List Action) (action : Action) :
    replay (history ++ [action]) = (replay history).act action := by
  rw [replay, List.foldl_append]
  rfl

theorem lastSet_concat_iff {value : Value} :
    LastSet (history ++ [action]) name value ↔
      action = .set name value ∨ action.name ≠ name ∧ LastSet history name value := by
  unfold LastSet
  simp only [concat_eq_append_cons_iff]
  constructor
  · rintro ⟨earlier, later, ⟨rfl, rfl, rfl⟩ | ⟨front, rfl, rfl⟩, hlater⟩
    · exact .inl rfl
    · exact .inr ⟨hlater action (by simp), earlier, front, rfl, fun other hother =>
        hlater other (by simp [hother])⟩
  · rintro (rfl | ⟨hname, earlier, later, rfl, hlater⟩)
    · exact ⟨history, [], .inl ⟨rfl, rfl, rfl⟩, by simp⟩
    · refine ⟨earlier, later ++ [action], .inr ⟨later, rfl, rfl⟩, fun other hother => ?_⟩
      rcases List.mem_append.mp hother with hother | hother
      · exact hlater other hother
      · rw [List.mem_singleton.mp hother]
        exact hname

theorem absent_concat_iff :
    Absent (history ++ [action]) name ↔
      action = .take name ∨ (∀ value, action ≠ .set name value) ∧ Absent history name := by
  unfold Absent
  simp only [concat_eq_append_cons_iff]
  constructor
  · intro h
    by_cases htake : action = .take name
    · exact .inl htake
    · right
      constructor
      · rintro value rfl
        exact absurd (h history value [] (.inl ⟨rfl, rfl, rfl⟩)) List.not_mem_nil
      · intro earlier value later hsplit
        have hmem := h earlier value (later ++ [action]) (.inr ⟨later, rfl, hsplit⟩)
        rcases List.mem_append.mp hmem with hmem | hmem
        · exact hmem
        · exact absurd (List.mem_singleton.mp hmem).symm htake
  · rintro h earlier value later (⟨hset, -, -⟩ | ⟨front, rfl, hsplit⟩)
    · rcases h with rfl | ⟨hset', -⟩
      · cases hset
      · exact absurd hset.symm (hset' value)
    · rcases h with rfl | ⟨-, habsent⟩
      · exact List.mem_append_right _ (List.mem_singleton_self _)
      · exact List.mem_append_left _ (habsent earlier value front hsplit)

theorem enteredAt_concat_iff {index : Nat} :
    EnteredAt (history ++ [action]) name index ↔
      (action ≠ .take name ∧ EnteredAt history name index) ∨
        (∃ value, action = .set name value) ∧ Absent history name ∧ history.length = index := by
  unfold EnteredAt
  simp only [concat_eq_append_cons_iff]
  constructor
  · rintro ⟨earlier, value, later, ⟨hset, rfl, rfl⟩ | ⟨front, rfl, rfl⟩, hindex, habsent, htake⟩
    · exact .inr ⟨⟨value, hset.symm⟩, habsent, hindex⟩
    · rw [List.mem_append, List.mem_singleton, not_or] at htake
      exact .inl ⟨Ne.symm htake.2, earlier, value, front, rfl, hindex, habsent, htake.1⟩
  · rintro (⟨haction, earlier, value, later, rfl, hindex, habsent, htake⟩ |
      ⟨⟨value, rfl⟩, habsent, hindex⟩)
    · refine ⟨earlier, value, later ++ [action], .inr ⟨later, rfl, rfl⟩, hindex, habsent, ?_⟩
      rw [List.mem_append, List.mem_singleton, not_or]
      exact ⟨htake, Ne.symm haction⟩
    · exact ⟨history, value, [], .inl ⟨rfl, rfl, rfl⟩, hindex, habsent, List.not_mem_nil⟩

theorem EnteredAt.lt_length {index : Nat} (h : EnteredAt history name index) :
    index < history.length := by
  obtain ⟨earlier, value, later, rfl, rfl, -⟩ := h
  simp

end Steps

/-! ## What a history leaves -/

section Replay

variable (history : List Action)

theorem nodup_names_replay : (replay history).names.Nodup := by
  induction history using List.reverseRecOn with
  | nil => exact List.nodup_nil
  | append_singleton history action ih =>
    rw [replay_concat]
    cases action with
    | set name value => exact Fields.nodup_names_set ih name value
    | take name => exact Fields.nodup_names_erase ih name

/-- Under a name stands what was set there last. -/
theorem get?_replay (name : String) (value : Value) :
    (replay history).get? name = some value ↔ LastSet history name value := by
  induction history using List.reverseRecOn with
  | nil => simp [replay, Fields.empty, Fields.get?, LastSet]
  | append_singleton history action ih =>
    rw [replay_concat, lastSet_concat_iff]
    cases action with
    | set other found =>
      rw [act, Fields.get?_set]
      by_cases hname : name = other
      · subst hname
        simp [Action.name]
      · simp [Action.name, hname, Ne.symm hname, ih]
    | take other =>
      rw [act, Fields.take, Fields.get?_erase (nodup_names_replay history)]
      by_cases hname : name = other
      · subst hname
        simp [Action.name]
      · simp [Action.name, hname, Ne.symm hname, ih]

theorem not_mem_names_replay (name : String) :
    name ∉ (replay history).names ↔ Absent history name := by
  induction history using List.reverseRecOn with
  | nil => simp [replay, Fields.empty, Fields.names, Absent]
  | append_singleton history action ih =>
    rw [replay_concat, absent_concat_iff, ← ih]
    cases action with
    | set other found =>
      rw [act, Fields.names_set]
      by_cases hname : name = other
      · subst hname
        by_cases hmem : name ∈ (replay history).names <;> simp [hmem]
      · by_cases hmem : other ∈ (replay history).names <;> simp [hmem, hname, Ne.symm hname]
    | take other =>
      rw [act, Fields.take, Fields.names_erase, (nodup_names_replay history).mem_erase_iff]
      by_cases hname : name = other
      · simp [hname]
      · simp [hname, Ne.symm hname]

/-- The names are those that came in and were not taken since. -/
theorem mem_names_replay (name : String) :
    name ∈ (replay history).names ↔ ∃ index, EnteredAt history name index := by
  induction history using List.reverseRecOn with
  | nil => simp [replay, Fields.empty, Fields.names, EnteredAt]
  | append_singleton history action ih =>
    simp only [replay_concat, enteredAt_concat_iff, exists_or, exists_and_left, ← ih,
      ← not_mem_names_replay, exists_eq', and_true]
    cases action with
    | set other found =>
      rw [act, Fields.names_set]
      by_cases hname : name = other
      · subst hname
        by_cases hmem : name ∈ (replay history).names <;> simp [hmem]
      · by_cases hmem : other ∈ (replay history).names <;> simp [hmem, hname, Ne.symm hname]
    | take other =>
      rw [act, Fields.take, Fields.names_erase, (nodup_names_replay history).mem_erase_iff]
      simp [eq_comm]

/-- The names stand in the order in which they came in. -/
theorem pairwise_names_replay :
    (replay history).names.Pairwise fun name other => ∀ i j, EnteredAt history name i →
      EnteredAt history other j → i < j := by
  induction history using List.reverseRecOn with
  | nil => exact .nil
  | append_singleton history action ih =>
    rw [replay_concat]
    -- a name that was there came in when it did before the last action
    have hbefore : ∀ name ∈ (replay history).names, ∀ i,
        EnteredAt (history ++ [action]) name i → EnteredAt history name i := by
      intro name hname i hentered
      rcases enteredAt_concat_iff.mp hentered with ⟨-, h⟩ | ⟨-, habsent, -⟩
      · exact h
      · exact absurd hname ((not_mem_names_replay history name).mpr habsent)
    have hstill := ih.imp_of_mem fun hname hother h i j hi hj =>
      h i j (hbefore _ hname i hi) (hbefore _ hother j hj)
    cases action with
    | set other found =>
      rw [act, Fields.names_set]
      split
      · exact hstill
      · next hnew =>
        refine List.pairwise_append.mpr ⟨hstill, List.pairwise_singleton _ _, ?_⟩
        intro name hname last hlast i j hi hj
        rw [List.mem_singleton.mp hlast] at hj
        have hlt := (hbefore name hname i hi).lt_length
        rcases enteredAt_concat_iff.mp hj with ⟨-, h⟩ | ⟨-, -, rfl⟩
        · exact absurd ((mem_names_replay history other).mpr ⟨j, h⟩) hnew
        · exact hlt
    | take other =>
      rw [act, Fields.take, Fields.names_erase]
      exact hstill.sublist List.erase_sublist

end Replay

end Record

end PacketWire
