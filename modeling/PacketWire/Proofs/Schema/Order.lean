import Mathlib.Data.List.InsertIdx
import PacketWire.Schema.Order

/-!
# When fields can be ordered

The fields that ask for a place are inserted lowest place first, so that the `k`-th of them finds as
many fields before it as ask for no place, and `k` more. All of them can be inserted when each place
is within that, and then no field is lost.

* `Field.wireOrder_eq_ok_iff`: when there is a wire order, and which.
* `Field.finalOrder_perm`: it holds the declared fields.
-/

namespace PacketWire.Field

/-- The places that are asked for, in ascending order. -/
def places (declared : List Field) : List Nat :=
  (declared.filterMap (·.position)).mergeSort (· ≤ ·)

/-- Each place lies within the fields that stand when its turn comes. -/
def PlacesFit (declared : List Field) : Prop :=
  ∀ k place, (places declared)[k]? = some place → place ≤ (unplaced declared).length + k

/-- The fields without a place in declaration order, and each field with a place inserted at it,
lowest first. -/
def finalOrder (declared : List Field) : List Field :=
  (placed declared).foldl (fun ordered entry => ordered.insertIdx entry.1 entry.2)
    (unplaced declared)

theorem map_fst_placed (declared : List Field) : (placed declared).map (·.1) = places declared := by
  have hfst : ∀ field : Field, (field.position.map (·, field)).map (·.1) = field.position := by
    intro field
    cases field.position <;> rfl
  have hsort := List.map_mergeSort (r := fun a b : Nat × Field => decide (a.1 ≤ b.1))
    (s := fun a b => decide (a ≤ b)) (f := (·.1))
    (l := declared.filterMap fun field => field.position.map (·, field)) fun _ _ _ _ => rfl
  rw [List.map_filterMap] at hsort
  simp only [hfst] at hsort
  exact hsort

/-- The fields with a place and those without one are all fields. -/
theorem placed_append_unplaced (declared : List Field) :
    ((placed declared).map (·.2) ++ unplaced declared).Perm declared := by
  have hplaced : ((placed declared).map (·.2)).Perm (declared.filter (·.position.isSome)) := by
    refine ((List.mergeSort_perm _ _).map Prod.snd).trans (.of_eq ?_)
    rw [List.map_filterMap, ← List.filterMap_eq_filter]
    congr 1
    funext field
    cases hposition : field.position <;> simp [Option.guard, hposition]
  have hunplaced : unplaced declared = declared.filter (!·.position.isSome) := by
    unfold unplaced
    congr 1
    funext field
    cases field.position <;> rfl
  rw [hunplaced]
  exact (hplaced.append_right _).trans (List.filter_append_perm _ declared)

theorem insertPlaced_eq_ok_iff {owner : String} {entries : List (Nat × Field)}
    {ordered result : List Field} :
    insertPlaced owner entries ordered = .ok result ↔
      (∀ k place, (entries.map (·.1))[k]? = some place → place ≤ ordered.length + k) ∧
        entries.foldl (fun ordered entry => ordered.insertIdx entry.1 entry.2) ordered =
          result := by
  induction entries generalizing ordered with
  | nil => simp [insertPlaced]
  | cons entry entries ih =>
    obtain ⟨place, field⟩ := entry
    rw [insertPlaced]
    by_cases hle : place ≤ ordered.length
    · rw [if_pos hle, ih, List.foldl_cons, List.length_insertIdx_of_le_length hle]
      refine and_congr_left' ⟨fun h k other hother => ?_, fun h k other hother => ?_⟩
      · cases k with
        | zero =>
          cases hother
          exact hle
        | succ k =>
          have := h k other hother
          omega
      · have := h (k + 1) other hother
        omega
    · rw [if_neg hle]
      refine ⟨nofun, fun h => ?_⟩
      exact absurd (h.1 0 place rfl) hle

/-- There is a wire order when the places fit, and then it is the final order. -/
theorem wireOrder_eq_ok_iff {owner : String} {declared ordered : List Field} :
    wireOrder owner declared = .ok ordered ↔
      PlacesFit declared ∧ finalOrder declared = ordered := by
  unfold wireOrder PlacesFit
  rw [insertPlaced_eq_ok_iff, map_fst_placed]
  rfl

theorem perm_foldl_insertIdx {entries : List (Nat × Field)} {ordered : List Field}
    (h : ∀ k place, (entries.map (·.1))[k]? = some place → place ≤ ordered.length + k) :
    (entries.foldl (fun ordered entry => ordered.insertIdx entry.1 entry.2) ordered).Perm
      (entries.map (·.2) ++ ordered) := by
  induction entries generalizing ordered with
  | nil => exact .rfl
  | cons entry entries ih =>
    obtain ⟨place, field⟩ := entry
    have hle : place ≤ ordered.length := h 0 place rfl
    have hlater : ∀ k other, (entries.map (·.1))[k]? = some other →
        other ≤ (ordered.insertIdx place field).length + k := by
      intro k other hother
      have := h (k + 1) other hother
      rw [List.length_insertIdx_of_le_length hle]
      omega
    have hinsert := (List.perm_insertIdx field ordered hle).append_left (entries.map (·.2))
    exact (ih hlater).trans (hinsert.trans List.perm_middle)

/-- The wire order holds the declared fields. -/
theorem finalOrder_perm {declared : List Field} (h : PlacesFit declared) :
    (finalOrder declared).Perm declared := by
  unfold PlacesFit at h
  rw [← map_fst_placed] at h
  exact (perm_foldl_insertIdx h).trans (placed_append_unplaced declared)

/-- Without places the wire order is the order of declaration. -/
theorem finalOrder_of_unplaced {declared : List Field}
    (h : ∀ field ∈ declared, field.position = none) :
    PlacesFit declared ∧ finalOrder declared = declared := by
  have hplaced : placed declared = [] := by
    have hnone : declared.filterMap (fun field => field.position.map (·, field)) = [] := by
      rw [List.filterMap_eq_nil_iff]
      intro field hfield
      rw [h field hfield]
      rfl
    rw [placed, hnone, List.mergeSort_nil]
  have hunplaced : unplaced declared = declared :=
    List.filter_eq_self.mpr fun field hfield => by simp [h field hfield]
  constructor
  · intro k place hplace
    simp [← map_fst_placed, hplaced] at hplace
  · rw [finalOrder, hplaced, hunplaced, List.foldl_nil]

end PacketWire.Field
