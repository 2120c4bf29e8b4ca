import Mathlib.Data.List.Perm.Subperm
import PacketWire.Proofs.Value.History

/-!
# Equality of records

Equality compares the sizes of two records and looks up the names of the left one only. Where no
name occurs twice, that makes them equal as maps: the same names, and equal values under each. As
the numbers in them compare, so do records: equality is symmetric and transitive, and a record
equals itself unless there is a NaN in it.

* `Value.Distinct`: no record in a value has a name twice.
* `Value.Rearranged`: two values differ at most in the order of names, at any depth.
* `Record.agrees_iff`: equality is that of maps.
* `Value.Distinct.agrees_comm`, `Value.Distinct.agrees_trans`, `Value.Distinct.agrees_self_iff`.
* `Value.Rearranged.agrees_eq`: the order of names makes no difference, at any depth.
* `Record.replay_isMap`: all of this of records built by setting and taking names.
-/

namespace PacketWire

/-! ## Values -/

namespace Value

/-- No record in the value has a name twice, at any depth. -/
inductive Distinct : Value → Prop
  | scalar (s : Scalar) : Distinct (.scalar s)
  | text (s : String) : Distinct (.text s)
  | bytes (b : Bytes) : Distinct (.bytes b)
  | array {items : List Value} : (∀ item ∈ items, Distinct item) → Distinct (.array items)
  | record {fields : Record} : fields.names.Nodup →
      (∀ name value, fields.get? name = some value → Distinct value) → Distinct (.record fields)

/-- Two values are built alike, up to the order of names in records, with related scalars in the
same places. -/
inductive Corresponds (R : Scalar → Scalar → Prop) : Value → Value → Prop
  | scalar {a b : Scalar} : R a b → Corresponds R (.scalar a) (.scalar b)
  | text (s : String) : Corresponds R (.text s) (.text s)
  | bytes (b : Bytes) : Corresponds R (.bytes b) (.bytes b)
  | array {as bs : List Value} : as.length = bs.length →
      (∀ (i : Nat) (a b : Value), as[i]? = some a → bs[i]? = some b → Corresponds R a b) →
      Corresponds R (.array as) (.array bs)
  | record {as bs : Record} : as.names.Perm bs.names →
      (∀ name a b, as.get? name = some a → bs.get? name = some b → Corresponds R a b) →
      Corresponds R (.record as) (.record bs)

/-- The same value up to the order of names in records, at any depth: every scalar, text and byte
string is the same. -/
abbrev Rearranged : Value → Value → Prop := Corresponds Eq

/-- A scalar stands in the value, at some depth. -/
inductive Holds (s : Scalar) : Value → Prop
  | here : Holds s (.scalar s)
  | item {items : List Value} {item : Value} : item ∈ items → Holds s item → Holds s (.array items)
  | field {fields : Record} {name : String} {value : Value} : fields.get? name = some value →
      Holds s value → Holds s (.record fields)

/-- There is a NaN in the value. -/
def HasNaN (value : Value) : Prop := ∃ s, value.Holds s ∧ s.isNaN = true

/-! ## Corresponding values -/

section Corresponds

variable {R S T : Scalar → Scalar → Prop} {u v w : Value}

theorem Corresponds.symm (hR : ∀ a b, R a b → S b a) (h : Corresponds R v w) :
    Corresponds S w v := by
  induction h with
  | scalar hab => exact .scalar (hR _ _ hab)
  | text s => exact .text s
  | bytes b => exact .bytes b
  | array hlength _ ih => exact .array hlength.symm fun i b a hb ha => ih i a b ha hb
  | record hnames _ ih => exact .record hnames.symm fun name b a hb ha => ih name a b ha hb

theorem Corresponds.trans (hRS : ∀ a b c, R a b → S b c → T a c) (h : Corresponds R u v)
    (h' : Corresponds S v w) : Corresponds T u w := by
  induction h generalizing w with
  | scalar hab =>
    cases h' with
    | scalar hbc => exact .scalar (hRS _ _ _ hab hbc)
  | text s =>
    cases h' with
    | text => exact .text s
  | bytes b =>
    cases h' with
    | bytes => exact .bytes b
  | @array as bs hlength _ ih =>
    cases h' with
    | @array _ cs hlength' each =>
      refine .array (hlength.trans hlength') fun i a c ha hc => ?_
      have hi : i < bs.length := hlength ▸ (List.getElem?_eq_some_iff.mp ha).1
      have hb := List.getElem?_eq_getElem hi
      exact ih i a _ ha hb (each i _ c hb hc)
  | @record as bs hnames _ ih =>
    cases h' with
    | @record _ cs hnames' each =>
      -- a name of the outer two is one of the middle record, which has a value under it
      refine .record (hnames.trans hnames') fun name a c ha hc => ?_
      have hname := hnames.mem_iff.mp (Fields.mem_names_iff.mpr ⟨a, ha⟩)
      obtain ⟨b, hb⟩ := Fields.mem_names_iff.mp hname
      exact ih name a b ha hb (each name b c hb hc)

/-- A value without a name twice corresponds to itself when each scalar in it is related to
itself. -/
theorem Distinct.corresponds_self_iff (hv : v.Distinct) :
    Corresponds R v v ↔ ∀ s, v.Holds s → R s s := by
  constructor
  · intro h s hs
    induction hs with
    | here =>
      cases h with
      | scalar hab => exact hab
    | item hitem _ ih =>
      cases h with
      | array _ each =>
        obtain ⟨i, hi⟩ := List.getElem?_of_mem hitem
        cases hv with
        | array hdistinct => exact ih (hdistinct _ hitem) (each i _ _ hi hi)
    | field hvalue _ ih =>
      cases h with
      | record _ each =>
        cases hv with
        | record _ hdistinct => exact ih (hdistinct _ _ hvalue) (each _ _ _ hvalue hvalue)
  · intro h
    induction hv with
    | scalar s => exact .scalar (h s .here)
    | text s => exact .text s
    | bytes b => exact .bytes b
    | array _ ih =>
      refine .array rfl fun i a b ha hb => ?_
      rw [ha] at hb
      cases hb
      have hitem := List.mem_of_getElem? ha
      exact ih a hitem fun s hs => h s (.item hitem hs)
    | record _ _ ih =>
      refine .record (.refl _) fun name a b ha hb => ?_
      rw [ha] at hb
      cases hb
      exact ih name a ha fun s hs => h s (.field ha hs)

end Corresponds

end Value

/-! ## Equality, one level down -/

theorem Scalar.agrees_trans {a b c : Scalar} (hab : a.agrees b = true) (hbc : b.agrees c = true) :
    a.agrees c = true := by
  simp only [agrees, Bool.and_eq_true, beq_iff_eq, Bool.not_eq_true', Bool.or_eq_true] at *
  obtain ⟨⟨⟨htype, ha⟩, hb⟩, hab⟩ := hab
  obtain ⟨⟨⟨htype', -⟩, hc⟩, hbc⟩ := hbc
  refine ⟨⟨⟨htype.trans htype', ha⟩, hc⟩, ?_⟩
  -- scalars of one type with the same bits are the same
  have heq : ∀ {x y : Scalar}, x.type = y.type → x.bits.toNat = y.bits.toNat → x = y := by
    rintro ⟨type, bits⟩ ⟨_, bits'⟩ rfl hbits
    exact congrArg (Scalar.mk type) (BitVec.eq_of_toNat_eq hbits)
  rcases hab with hab | ⟨haz, hbz⟩
  · rw [heq htype hab]
    exact hbc
  · rcases hbc with hbc | ⟨-, hcz⟩
    · rw [heq htype' hbc] at hbz
      exact .inr ⟨haz, hbz⟩
    · exact .inr ⟨haz, hcz⟩

namespace Value

theorem agrees_array (as bs : List Value) : (array as).agrees (array bs) = itemsAgree as bs := by
  rw [agrees]

theorem agrees_record (a b : Record) : (record a).agrees (record b) = a.agrees b := by
  cases a
  rw [agrees]
  rfl

theorem itemsAgree_iff {as bs : List Value} : itemsAgree as bs = true ↔
    as.length = bs.length ∧
      ∀ (i : Nat) (a b : Value), as[i]? = some a → bs[i]? = some b → a.agrees b = true := by
  induction as generalizing bs with
  | nil => cases bs <;> simp [itemsAgree]
  | cons a as ih =>
    cases bs with
    | nil => simp [itemsAgree]
    | cons b bs =>
      rw [itemsAgree, Bool.and_eq_true, ih, List.length_cons, List.length_cons,
        Nat.add_right_cancel_iff]
      constructor
      · rintro ⟨hfirst, hlength, hrest⟩
        refine ⟨hlength, fun i x y hx hy => ?_⟩
        cases i with
        | zero =>
          cases hx
          cases hy
          exact hfirst
        | succ i => exact hrest i x y hx hy
      · rintro ⟨hlength, heach⟩
        exact ⟨heach 0 a b rfl rfl, hlength, fun i => heach (i + 1)⟩

theorem entriesAgree_cons (name : String) (value : Value) (rest : List (String × Value))
    (other : Record) : entriesAgree ((name, value) :: rest) other =
      ((other.get? name).any value.agrees && entriesAgree rest other) := by
  rw [entriesAgree]
  cases other.get? name <;> rfl

theorem entriesAgree_iff {entries : List (String × Value)} {other : Record} :
    entriesAgree entries other = true ↔ ∀ name value, (name, value) ∈ entries →
      ∃ found, other.get? name = some found ∧ value.agrees found = true := by
  induction entries with
  | nil => simp [entriesAgree]
  | cons entry entries ih =>
    obtain ⟨name, value⟩ := entry
    rw [entriesAgree_cons, Bool.and_eq_true, ih, Option.any_eq_true]
    simp only [List.mem_cons, Prod.mk.injEq]
    constructor
    · rintro ⟨hhead, hrest⟩ other value (⟨rfl, rfl⟩ | hentry)
      · exact hhead
      · exact hrest other value hentry
    · exact fun h => ⟨h name value (.inl ⟨rfl, rfl⟩), fun other value hentry =>
        h other value (.inr hentry)⟩

end Value

namespace Record

variable {a b : Record}

/-- Where no name occurs twice, records are equal when they hold the same names, and equal values
under each. -/
theorem agrees_iff (ha : a.names.Nodup) :
    a.agrees b = true ↔ a.names.Perm b.names ∧
      ∀ name v w, a.get? name = some v → b.get? name = some w → v.agrees w = true := by
  have hsize : a.size = b.size ↔ a.names.length = b.names.length := by
    simp [Fields.size, Fields.names]
  rw [agrees, Bool.and_eq_true, beq_iff_eq, hsize, Value.entriesAgree_iff]
  simp only [← Fields.get?_eq_some_iff ha]
  constructor
  · rintro ⟨hlength, heach⟩
    constructor
    · -- a list without repetition inside another of its length is a permutation of it
      have hsubset : a.names ⊆ b.names := by
        intro name hname
        obtain ⟨v, hv⟩ := Fields.mem_names_iff.mp hname
        obtain ⟨w, hw, -⟩ := heach name v hv
        exact Fields.mem_names_iff.mpr ⟨w, hw⟩
      exact (List.subperm_of_subset ha hsubset).perm_of_length_le (Nat.le_of_eq hlength.symm)
    · intro name v w hv hw
      obtain ⟨found, hfound, hagrees⟩ := heach name v hv
      rw [hfound] at hw
      cases hw
      exact hagrees
  · rintro ⟨hperm, heach⟩
    refine ⟨hperm.length_eq, fun name v hv => ?_⟩
    have hname : name ∈ b.names := hperm.mem_iff.mp (Fields.mem_names_iff.mpr ⟨v, hv⟩)
    obtain ⟨w, hw⟩ := Fields.mem_names_iff.mp hname
    exact ⟨w, hw, heach name v w hv hw⟩

end Record

namespace Value

/-- Equality of values without a name twice: they are built alike, and their numbers are equal. -/
theorem Distinct.agrees_iff {v w : Value} (hv : v.Distinct) :
    v.agrees w = true ↔ Corresponds (fun a b => a.agrees b = true) v w := by
  induction hv generalizing w with
  | scalar a =>
    cases w with
    | scalar b =>
      rw [agrees]
      exact ⟨fun hab => .scalar hab, fun | .scalar hab => hab⟩
    | _ => exact iff_of_false (by simp [agrees]) nofun
  | text a =>
    cases w with
    | text b =>
      rw [agrees, beq_iff_eq]
      exact ⟨fun | rfl => .text a, fun | .text _ => rfl⟩
    | _ => exact iff_of_false (by simp [agrees]) nofun
  | bytes a =>
    cases w with
    | bytes b =>
      rw [agrees, beq_iff_eq]
      exact ⟨fun | rfl => .bytes a, fun | .bytes _ => rfl⟩
    | _ => exact iff_of_false (by simp [agrees]) nofun
  | @array as _ ih =>
    cases w with
    | array bs =>
      rw [agrees_array, itemsAgree_iff]
      constructor
      · rintro ⟨hlength, heach⟩
        exact .array hlength fun i a b ha hb =>
          (ih a (List.mem_of_getElem? ha)).mp (heach i a b ha hb)
      · rintro (_ | _ | _ | ⟨hlength, heach⟩)
        exact ⟨hlength, fun i a b ha hb =>
          (ih a (List.mem_of_getElem? ha)).mpr (heach i a b ha hb)⟩
    | _ => exact iff_of_false (by simp [agrees]) nofun
  | @record as hnames _ ih =>
    cases w with
    | record bs =>
      rw [agrees_record, Record.agrees_iff hnames]
      constructor
      · rintro ⟨hperm, heach⟩
        exact .record hperm fun name a b ha hb => (ih name a ha).mp (heach name a b ha hb)
      · rintro (_ | _ | _ | _ | ⟨hperm, heach⟩)
        exact ⟨hperm, fun name a b ha hb => (ih name a ha).mpr (heach name a b ha hb)⟩
    | _ => exact iff_of_false (by simp [agrees]) nofun

section Distinct

variable {u v w : Value}

theorem Distinct.agrees_symm (hv : v.Distinct) (hw : w.Distinct) (h : v.agrees w = true) :
    w.agrees v = true := by
  rw [hw.agrees_iff]
  exact (hv.agrees_iff.mp h).symm fun a b hab => a.agrees_symm b ▸ hab

theorem Distinct.agrees_comm (hv : v.Distinct) (hw : w.Distinct) : v.agrees w = w.agrees v :=
  Bool.eq_iff_iff.mpr ⟨hv.agrees_symm hw, hw.agrees_symm hv⟩

theorem Distinct.agrees_trans (hu : u.Distinct) (hv : v.Distinct) (huv : u.agrees v = true)
    (hvw : v.agrees w = true) : u.agrees w = true := by
  rw [hu.agrees_iff]
  have huv := hu.agrees_iff.mp huv
  have hvw := hv.agrees_iff.mp hvw
  exact huv.trans (fun a b c (hab : a.agrees b = true) hbc => Scalar.agrees_trans hab hbc) hvw

/-- A value equals itself unless there is a NaN in it. -/
theorem Distinct.agrees_self_iff (hv : v.Distinct) : v.agrees v = true ↔ ¬v.HasNaN := by
  rw [hv.agrees_iff, hv.corresponds_self_iff]
  simp only [Scalar.agrees_self_iff, HasNaN, not_exists, not_and, Bool.not_eq_true]

/-- A value equals what it equals in whatever order the names in it stand. -/
theorem Rearranged.agrees_eq (h : Rearranged u v) (hu : u.Distinct) (hv : v.Distinct) (w : Value) :
    u.agrees w = v.agrees w := by
  rw [Bool.eq_iff_iff, hu.agrees_iff, hv.agrees_iff]
  have h' : Rearranged v u := h.symm fun _ _ => Eq.symm
  constructor
  · exact fun huw => h'.trans (fun a b c (hab : a = b) hbc => hab ▸ hbc) huw
  · exact fun hvw => h.trans (fun a b c (hab : a = b) hbc => hab ▸ hbc) hvw

end Distinct

end Value

/-! ## Records built by setting and taking -/

/-- A value in which every record came about by setting names in an empty record and taking them
from it, at any depth. -/
inductive Value.Built : Value → Prop
  | scalar (s : Scalar) : Built (.scalar s)
  | text (s : String) : Built (.text s)
  | bytes (b : Bytes) : Built (.bytes b)
  | array {items : List Value} : (∀ item ∈ items, Built item) → Built (.array items)
  | record {history : List Record.Action} :
      (∀ name value, .set name value ∈ history → Built value) →
      Built (.record (Record.replay history))

namespace Record

/-- Every value that a history sets is itself built by setting and taking. -/
def SetsBuilt (history : List Action) : Prop :=
  ∀ name value, .set name value ∈ history → value.Built

theorem LastSet.mem {history : List Action} {name : String} {value : Value}
    (h : LastSet history name value) : .set name value ∈ history := by
  obtain ⟨earlier, later, rfl, -⟩ := h
  simp

end Record

/-- Setting and taking never make a name stand twice. -/
theorem Value.Built.distinct {value : Value} (h : value.Built) : value.Distinct := by
  induction h with
  | scalar s => exact .scalar s
  | text s => exact .text s
  | bytes b => exact .bytes b
  | array _ ih => exact .array ih
  | @record history _ ih =>
    refine .record (Record.nodup_names_replay history) fun name value hvalue => ?_
    exact ih name value ((Record.get?_replay history name value).mp hvalue).mem

namespace Record

/-- Records are finite maps. What is set and taken leaves every name at most once, the last value
set under it, and the names in the order of coming in. Two records are equal when they have the same
names and equal values under each, whatever the order at any depth; and this is symmetric,
transitive, and reflexive where there is no NaN. -/
theorem replay_isMap (history : List Action) (hbuilt : SetsBuilt history) :
    (replay history).names.Nodup ∧
    (∀ name value, (replay history).get? name = some value ↔ LastSet history name value) ∧
    (∀ name, name ∈ (replay history).names ↔ ∃ index, EnteredAt history name index) ∧
    (replay history).names.Pairwise (fun name other => ∀ i j, EnteredAt history name i →
      EnteredAt history other j → i < j) ∧
    ((replay history).agrees (replay history) = true ↔ ¬(Value.record (replay history)).HasNaN) ∧
    ∀ history', SetsBuilt history' →
      ((replay history).agrees (replay history') = true ↔
        (∀ name, name ∈ (replay history).names ↔ name ∈ (replay history').names) ∧
        ∀ name v w, (replay history).get? name = some v → (replay history').get? name = some w →
          v.agrees w = true) ∧
      (replay history).agrees (replay history') = (replay history').agrees (replay history) ∧
      ∀ history'', SetsBuilt history'' →
        ((replay history).agrees (replay history') = true →
          (replay history').agrees (replay history'') = true →
          (replay history).agrees (replay history'') = true) ∧
        (Value.Rearranged (.record (replay history)) (.record (replay history')) →
          (replay history).agrees (replay history'') =
            (replay history').agrees (replay history'')) := by
  have hdistinct : ∀ {log}, SetsBuilt log → (Value.record (replay log)).Distinct :=
    fun h => (Value.Built.record h).distinct
  have hd := hdistinct hbuilt
  have hself := hd.agrees_self_iff
  rw [Value.agrees_record] at hself
  refine ⟨nodup_names_replay history, get?_replay history, mem_names_replay history,
    pairwise_names_replay history, hself, fun history' hbuilt' => ⟨?_, ?_, ?_⟩⟩
  · rw [agrees_iff (nodup_names_replay history),
      List.perm_ext_iff_of_nodup (nodup_names_replay history) (nodup_names_replay history')]
  · have hcomm := hd.agrees_comm (hdistinct hbuilt')
    rwa [Value.agrees_record, Value.agrees_record] at hcomm
  · intro history'' hbuilt''
    constructor
    · intro h h'
      rw [← Value.agrees_record] at h h' ⊢
      exact hd.agrees_trans (hdistinct hbuilt') h h'
    · intro hrearranged
      rw [← Value.agrees_record, ← Value.agrees_record]
      exact hrearranged.agrees_eq hd (hdistinct hbuilt') _

/-- A point with its coordinates in one order, and a name that is taken and comes in anew. -/
def retaken : List Action :=
  [.set "tag" (.text "old"),
    .set "at" (.record (replay [.set "x" (.u8 1), .set "y" (.array [.u8 2])])),
    .take "tag", .set "tag" (.text "new")]

/-- The same with the names the other way round, at both depths. -/
def direct : List Action :=
  [.set "tag" (.text "new"),
    .set "at" (.record (replay [.set "y" (.array [.u8 2]), .set "x" (.u8 1)]))]

theorem replay_isMap_retaken :
    SetsBuilt retaken ∧ SetsBuilt direct ∧ (replay retaken).names = ["at", "tag"] ∧
      (replay direct).names = ["tag", "at"] ∧ (replay retaken).agrees (replay direct) = true ∧
      (replay direct).agrees (replay retaken) = true ∧
      ¬(Value.record (replay retaken)).HasNaN := by
  have hpoint : ∀ {history}, (∀ action ∈ history, action = .set "x" (.u8 1) ∨
      action = .set "y" (.array [.u8 2])) → (Value.record (replay history)).Built := by
    intro history h
    refine .record fun name value hset => ?_
    rcases h _ hset with heq | heq <;> cases heq
    · exact .scalar _
    · exact .array fun item hitem => List.mem_singleton.mp hitem ▸ .scalar _
  have hretaken : SetsBuilt retaken := by
    intro name value hset
    simp only [retaken, List.mem_cons, Action.set.injEq, reduceCtorEq, List.not_mem_nil,
      or_false, false_or] at hset
    rcases hset with ⟨-, rfl⟩ | ⟨-, rfl⟩ | ⟨-, rfl⟩
    · exact .text _
    · exact hpoint (by simp)
    · exact .text _
  have hdirect : SetsBuilt direct := by
    intro name value hset
    simp only [direct, List.mem_cons, Action.set.injEq, List.not_mem_nil, or_false] at hset
    rcases hset with ⟨-, rfl⟩ | ⟨-, rfl⟩
    · exact .text _
    · exact hpoint (by simp)
  obtain ⟨-, -, -, -, hself, hothers⟩ := replay_isMap retaken hretaken
  obtain ⟨-, hcomm, -⟩ := hothers direct hdirect
  have hagrees : (replay retaken).agrees (replay direct) = true := by decide +kernel
  exact ⟨hretaken, hdirect, rfl, rfl, hagrees, hcomm ▸ hagrees, hself.mp (by decide +kernel)⟩

end Record

end PacketWire
