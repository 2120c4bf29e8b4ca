import PacketWire.Size

/-!
# Offsets

A field of a layout sits at a constant plus the run-time spans of the variable-length fields before
it. An offset is that sum with its terms named but not yet known; the spans of one record or one
buffer give it a value.

* `eval?_eq_some_iff`: the value is the exact sum, and is missing exactly when that is no size.
* `Cursor.length_placeAll`: every field that is placed gets an offset.
-/

namespace PacketWire

/-- The run-time span of one earlier field (`DynamicTerm`). -/
structure Term where
  /-- The index of that field. -/
  field : Nat
  /-- How the span is written, such as `count*4`. -/
  label : String
  deriving DecidableEq, Repr

/-- A constant plus a sum of run-time spans (`OffsetExpr`). -/
structure Offset where
  constant : Nat
  terms : List Term := []
  deriving DecidableEq, Repr

namespace Offset

/-- Whether no span takes part (`is_static`). -/
def isStatic (offset : Offset) : Bool := offset.terms.isEmpty

/-- The value of an offset in which no span takes part (`static_value`). -/
def static? (offset : Offset) : Option Nat :=
  if offset.isStatic then some offset.constant else none

/-- The span a term stands for; a field without an entry has none. -/
def Term.span (spans : List Nat) (term : Term) : Nat :=
  spans.getD term.field 0

/-- The exact sum of the spans that terms stand for. -/
def spanSum (spans : List Nat) : List Term → Nat
  | [] => 0
  | term :: rest => Term.span spans term + spanSum spans rest

/-- The exact sum. -/
def total (offset : Offset) (spans : List Nat) : Nat :=
  offset.constant + spanSum spans offset.terms

/-- The sum, taken one term after another (`eval`), unless it leaves the range of sizes on the
way. -/
def eval? (offset : Offset) (spans : List Nat) : Option Nat :=
  offset.terms.foldlM (fun sum term => Size.add? sum (Term.span spans term)) offset.constant

/-- The sum in writing (`fmt`). -/
def render (offset : Offset) : String :=
  String.join (toString offset.constant :: offset.terms.map fun term => s!" + {term.label}")

/-- The offset moved by another one, whose labels are put under a path (`rebase`). -/
def rebase (base offset : Offset) (path : String) : Offset where
  constant := base.constant + offset.constant
  terms := base.terms ++ offset.terms.map fun term => { term with label := path ++ term.label }

theorem eval?_eq_of_terms_eq_nil {offset : Offset} (spans : List Nat) (h : offset.terms = []) :
    offset.eval? spans = some offset.constant := by
  simp [eval?, h]

private theorem foldlM_add?_eq_some_iff (spans : List Nat) (terms : List Term) (start n : Nat)
    (h : start < Size.limit) :
    terms.foldlM (fun sum term => Size.add? sum (Term.span spans term)) start = some n ↔
      start + spanSum spans terms = n ∧ n < Size.limit := by
  induction terms generalizing start with
  | nil => simp only [List.foldlM_nil, spanSum]; constructor <;> simp <;> omega
  | cons term terms ih =>
    simp only [List.foldlM_cons, spanSum, Option.bind_eq_bind,
      Option.bind_eq_some_iff, Size.add?_eq_some_iff]
    constructor
    · rintro ⟨next, ⟨rfl, hnext⟩, hrest⟩
      have := (ih _ hnext).mp hrest
      omega
    · rintro ⟨hsum, hn⟩
      exact ⟨_, ⟨rfl, by omega⟩, (ih _ (by omega)).mpr ⟨by omega, hn⟩⟩

/-- Spans give an offset its exact sum, and none when the sum is no size. -/
theorem eval?_eq_some_iff {offset : Offset} (spans : List Nat) {n : Nat}
    (h : offset.constant < Size.limit) :
    offset.eval? spans = some n ↔ offset.total spans = n ∧ n < Size.limit :=
  foldlM_add?_eq_some_iff spans offset.terms offset.constant n h

end Offset

/-! ## Placing fields -/

/-- How a field of variable length comes by its run-time span. -/
inductive Span where
  /-- The count that an earlier field carries, times a scale. -/
  | counted (source scale : Nat)
  /-- What a nested struct takes beyond its fixed part. -/
  | nested
  deriving DecidableEq, Repr

/-- The position behind the fields placed so far. -/
structure Cursor where
  position : Offset
  deriving DecidableEq, Repr

namespace Cursor

/-- A cursor at a constant position (`new`). -/
def start (position : Nat) : Cursor := ⟨⟨position, []⟩⟩

/-- Places a field of a fixed width, and a run-time span where it has a term (`place`): the field's
offset, and the cursor behind it. -/
def place (cursor : Cursor) (width : Nat) (term : Option Term) : Offset × Cursor :=
  (cursor.position,
    ⟨⟨cursor.position.constant + width, cursor.position.terms ++ term.toList⟩⟩)

/-- Places fields one after another. -/
def placeAll : Cursor → List (Nat × Option Term) → List Offset × Cursor
  | cursor, [] => ([], cursor)
  | cursor, (width, term) :: rest =>
    let (offset, next) := cursor.place width term
    let (offsets, last) := placeAll next rest
    (offset :: offsets, last)

theorem length_placeAll (cursor : Cursor) (fields : List (Nat × Option Term)) :
    (cursor.placeAll fields).1.length = fields.length := by
  induction fields generalizing cursor with
  | nil => rfl
  | cons field rest ih => simp [placeAll, ih]

end Cursor

end PacketWire
