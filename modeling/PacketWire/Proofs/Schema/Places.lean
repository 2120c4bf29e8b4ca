import Mathlib.Data.Nat.Find
import PacketWire.Proofs.Schema.Order

/-!
# Where fields stand

What ordering makes of the places that fields ask for. Insertion never parts the fields without a
place, and it never moves what stands in front of it: where no two fields ask for one place, each
insertion is behind all those before it, so that every field stays at the index it asked for. Where
a place is beyond the fields that stand, the first such place is reported.

* `Field.getElem?_foldl_insertIdx`: entries inserted at ascending places stand at them.
* `Field.insertPlaced_eq_error`: the first place beyond the fields that stand is reported.
* `Field.wireOrder_places`: when there is a wire order and what holds of it, and what is reported
  where there is none.
-/

namespace PacketWire.Field

/-! ## One insertion -/

theorem filter_insertIdx {α : Type} {p : α → Bool} {a : α} (ha : p a = false) (items : List α)
    (i : Nat) : (items.insertIdx i a).filter p = items.filter p := by
  induction i generalizing items with
  | zero => rw [List.insertIdx_zero, List.filter_cons_of_neg (by simp [ha])]
  | succ i ih =>
    cases items with
    | nil => rfl
    | cons b items => rw [List.insertIdx_succ_cons, List.filter_cons, List.filter_cons, ih]

/-! ## All insertions -/

/-- Entries that ask for a place leave the fields without one as they stand. -/
theorem unplaced_foldl_insertIdx {entries : List (Nat × Field)}
    (h : ∀ entry ∈ entries, entry.2.position.isNone = false) (ordered : List Field) :
    unplaced (entries.foldl (fun ordered entry => ordered.insertIdx entry.1 entry.2) ordered) =
      unplaced ordered := by
  induction entries generalizing ordered with
  | nil => rfl
  | cons entry entries ih =>
    rw [List.foldl_cons, ih fun other hother => h other (List.mem_cons_of_mem _ hother)]
    exact filter_insertIdx (p := fun field => field.position.isNone) (h entry List.mem_cons_self)
      ordered entry.1

/-- Insertions leave in place what stands in front of them all. -/
theorem getElem?_foldl_insertIdx_of_lt {entries : List (Nat × Field)} {i : Nat}
    (h : ∀ entry ∈ entries, i < entry.1) (ordered : List Field) :
    (entries.foldl (fun ordered entry => ordered.insertIdx entry.1 entry.2) ordered)[i]? =
      ordered[i]? := by
  induction entries generalizing ordered with
  | nil => rfl
  | cons entry entries ih =>
    rw [List.foldl_cons, ih fun other hother => h other (List.mem_cons_of_mem _ hother)]
    exact List.getElem?_insertIdx_of_lt (h entry List.mem_cons_self)

/-- Entries inserted at ascending places stand at them: each is in front of all later ones. -/
theorem getElem?_foldl_insertIdx {entries : List (Nat × Field)} {ordered : List Field}
    (hfit : ∀ k place, (entries.map (·.1))[k]? = some place → place ≤ ordered.length + k)
    (hascending : (entries.map (·.1)).Pairwise (· < ·)) :
    ∀ entry ∈ entries,
      (entries.foldl (fun ordered entry => ordered.insertIdx entry.1 entry.2) ordered)[entry.1]? =
        some entry.2 := by
  induction entries generalizing ordered with
  | nil => simp
  | cons first entries ih =>
    rw [List.map_cons, List.pairwise_cons] at hascending
    obtain ⟨hfront, hrest⟩ := hascending
    have hle : first.1 ≤ ordered.length := hfit 0 first.1 rfl
    have hlater : ∀ k place, (entries.map (·.1))[k]? = some place →
        place ≤ (ordered.insertIdx first.1 first.2).length + k := by
      intro k place hplace
      have := hfit (k + 1) place hplace
      rw [List.length_insertIdx_of_le_length hle]
      omega
    intro entry hentry
    rw [List.foldl_cons]
    rcases List.mem_cons.mp hentry with rfl | hentry
    · rw [getElem?_foldl_insertIdx_of_lt fun other hother =>
        hfront other.1 (List.mem_map_of_mem hother)]
      rw [List.getElem?_insertIdx_self, if_pos hle]
    · exact ih hlater hrest entry hentry

/-- The first place that does not fit is reported, with the number of fields that stood then. -/
theorem insertPlaced_eq_error {owner : String} {entries : List (Nat × Field)}
    {ordered : List Field} {k place : Nat} {field : Field}
    (hentry : entries[k]? = some (place, field)) (hbeyond : ordered.length + k < place)
    (hfirst : ∀ j < k, ∀ other, (entries.map (·.1))[j]? = some other → other ≤ ordered.length + j) :
    insertPlaced owner entries ordered =
      .error (.orderOutOfRange owner field.name place (ordered.length + k)) := by
  induction entries generalizing ordered k with
  | nil => simp at hentry
  | cons entry entries ih =>
    cases k with
    | zero =>
      cases hentry
      rw [insertPlaced, if_neg (by omega), Nat.add_zero]
    | succ k =>
      have hle : entry.1 ≤ ordered.length := hfirst 0 (by omega) entry.1 rfl
      have hlength : (ordered.insertIdx entry.1 entry.2).length + k = ordered.length + (k + 1) := by
        rw [List.length_insertIdx_of_le_length hle]
        omega
      rw [insertPlaced, if_pos hle, ← hlength]
      refine ih hentry (by omega) fun j hj other hother => ?_
      have := hfirst (j + 1) (by omega) other hother
      rw [List.length_insertIdx_of_le_length hle]
      omega

/-! ## The wire order -/

theorem mem_placed_iff {declared : List Field} {place : Nat} {field : Field} :
    (place, field) ∈ placed declared ↔ field ∈ declared ∧ field.position = some place := by
  rw [placed, List.mem_mergeSort, List.mem_filterMap]
  constructor
  · rintro ⟨found, hfound, hpair⟩
    obtain ⟨_, hposition, heq⟩ := Option.map_eq_some_iff.mp hpair
    cases heq
    exact ⟨hfound, hposition⟩
  · rintro ⟨hfield, hposition⟩
    exact ⟨field, hfield, by rw [hposition, Option.map_some]⟩

/-- Where no two fields ask for one place, the places ascend strictly. -/
theorem places_pairwise_lt {declared : List Field}
    (h : (declared.filterMap (·.position)).Nodup) : (places declared).Pairwise (· < ·) := by
  have hsorted : (places declared).Pairwise (· ≤ ·) := by
    have htrans : ∀ a b c : Nat, decide (a ≤ b) = true → decide (b ≤ c) = true →
        decide (a ≤ c) = true := by
      simp only [decide_eq_true_eq]
      omega
    have htotal : ∀ a b : Nat, (decide (a ≤ b) || decide (b ≤ a)) = true := by
      simp only [Bool.or_eq_true, decide_eq_true_eq]
      omega
    simpa [places] using List.pairwise_mergeSort htrans htotal (declared.filterMap (·.position))
  have hnodup : (places declared).Nodup := (List.mergeSort_perm _ _).nodup_iff.mpr h
  exact (hsorted.and hnodup).imp fun ⟨hle, hne⟩ => Nat.lt_of_le_of_ne hle hne

/-- The `k`-th of the places in ascending order is the first that is beyond the fields that stand
when its turn comes. -/
structure FirstBeyond (declared : List Field) (k place : Nat) : Prop where
  asked : (places declared)[k]? = some place
  beyond : (unplaced declared).length + k < place
  first : ∀ j < k, ∀ other, (places declared)[j]? = some other →
    other ≤ (unplaced declared).length + j

theorem exists_firstBeyond {declared : List Field} (h : ¬PlacesFit declared) :
    ∃ k place, FirstBeyond declared k place := by
  have hsome : ∃ k place, (places declared)[k]? = some place ∧
      (unplaced declared).length + k < place := by
    simpa [PlacesFit] using h
  obtain ⟨place, hasked, hbeyond⟩ := Nat.find_spec hsome
  refine ⟨_, place, hasked, hbeyond, fun j hj other hother => ?_⟩
  by_contra hlt
  exact Nat.find_min hsome hj ⟨other, hother, by omega⟩

theorem wireOrder_of_firstBeyond {declared : List Field} {k place : Nat}
    (h : FirstBeyond declared k place) (owner : String) :
    ∃ field ∈ declared, field.position = some place ∧
      (placed declared)[k]? = some (place, field) ∧
      wireOrder owner declared =
        .error (.orderOutOfRange owner field.name place ((unplaced declared).length + k)) := by
  obtain ⟨hasked, hbeyond, hfirst⟩ := h
  rw [← map_fst_placed, List.getElem?_map, Option.map_eq_some_iff] at hasked
  obtain ⟨⟨_, field⟩, hentry, rfl⟩ := hasked
  obtain ⟨hfield, hposition⟩ := mem_placed_iff.mp (List.mem_of_getElem? hentry)
  rw [← map_fst_placed] at hfirst
  exact ⟨field, hfield, hposition, hentry, insertPlaced_eq_error hentry hbeyond hfirst⟩

theorem unplaced_finalOrder (declared : List Field) :
    unplaced (finalOrder declared) = unplaced declared := by
  rw [finalOrder, unplaced_foldl_insertIdx]
  · simp [unplaced]
  · rintro ⟨place, field⟩ hentry
    rw [(mem_placed_iff.mp hentry).2, Option.isNone_some]

theorem getElem?_finalOrder {declared : List Field} (hfit : PlacesFit declared)
    (hdistinct : (declared.filterMap (·.position)).Nodup) {field : Field} (hfield : field ∈ declared)
    {place : Nat} (hplace : field.position = some place) :
    (finalOrder declared)[place]? = some field := by
  rw [PlacesFit, ← map_fst_placed] at hfit
  have hascending := places_pairwise_lt hdistinct
  rw [← map_fst_placed] at hascending
  exact getElem?_foldl_insertIdx hfit hascending (place, field) (mem_placed_iff.mpr ⟨hfield, hplace⟩)

/-- There is a wire order exactly when each place, in ascending order, is within the fields without
a place and those placed before it. The wire order holds the declared fields, those without a place
one behind the other as they were declared, and, where no two fields ask for one place, each field
with a place at it. Otherwise the first place beyond is reported, for a field that asks for it, with
the number of fields that stood then. -/
theorem wireOrder_places (owner : String) (declared : List Field) :
    ((∃ ordered, wireOrder owner declared = .ok ordered) ↔ PlacesFit declared) ∧
      (∀ ordered, wireOrder owner declared = .ok ordered →
        ordered.Perm declared ∧ unplaced ordered = unplaced declared ∧
          ((declared.filterMap (·.position)).Nodup → ∀ field ∈ declared, ∀ place,
            field.position = some place → ordered[place]? = some field)) ∧
      (¬PlacesFit declared → ∃ k place, FirstBeyond declared k place ∧
        ∃ field ∈ declared, field.position = some place ∧
          (placed declared)[k]? = some (place, field) ∧
          wireOrder owner declared =
            .error (.orderOutOfRange owner field.name place ((unplaced declared).length + k))) := by
  refine ⟨?_, ?_, ?_⟩
  · simp only [wireOrder_eq_ok_iff, exists_and_left, exists_eq', and_true]
  · intro ordered hordered
    obtain ⟨hfit, rfl⟩ := wireOrder_eq_ok_iff.mp hordered
    exact ⟨finalOrder_perm hfit, unplaced_finalOrder declared, fun hdistinct field hfield place =>
      getElem?_finalOrder hfit hdistinct hfield⟩
  · intro hunfit
    obtain ⟨k, place, hfirst⟩ := exists_firstBeyond hunfit
    exact ⟨k, place, hfirst, wireOrder_of_firstBeyond hfirst owner⟩

/-- Two fields that ask for one place are inserted there one after the other, and so the one that
was declared first is pushed behind. -/
example :
    let field (name : String) (position : Option Nat) : Field :=
      { name, kind := .scalar .u8, position }
    (wireOrder "P" [field "a" none, field "first" (some 0), field "again" (some 0),
      field "last" (some 3)]).toOption.map (·.map (·.name)) =
        some ["again", "first", "a", "last"] := by
  cbv

end PacketWire.Field
