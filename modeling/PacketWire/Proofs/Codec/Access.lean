import PacketWire.Proofs.Layout.WellFormed

/-!
# The small steps of the codec

When the steps that writing, reading and measuring share succeed, and with what.

* `Codec.scaled_eq_ok_iff`, `Codec.spanOf_eq_ok_iff`: spans are exact.
* `Codec.countOf_lt`: the count that a field carries is a size.
* `BlamesInput`: what fails for a reason that lies in the input, and not in the layout.
-/

namespace PacketWire

/-! ## Faults -/

/-- A fault of the layout: an access leaves the buffer that was checked, or a nested struct is
shorter than its fixed part. -/
inductive CodecError.OfLayout : CodecError → Prop
  | outOfBounds : OfLayout .outOfBounds
  | negativeSpan : OfLayout .negativeSpan

@[simp]
theorem CodecError.ofLayout_iff {fault : CodecError} :
    fault.OfLayout ↔ fault = .outOfBounds ∨ fault = .negativeSpan := by
  constructor
  · rintro (_ | _)
    · exact .inl rfl
    · exact .inr rfl
  · rintro (rfl | rfl)
    · exact .outOfBounds
    · exact .negativeSpan

theorem Value.not_ofLayout_mismatch (value : Value) (field expected : String) :
    ¬(value.mismatch field expected).OfLayout := by
  simp [Value.mismatch]

/-- A computation whose every fault has a property. -/
def FailsWith {α : Type} (P : CodecError → Prop) (x : Except CodecError α) : Prop :=
  ∀ fault, x = .error fault → P fault

section

variable {α β : Type} {P : CodecError → Prop}

theorem failsWith_ok (a : α) : FailsWith P (.ok a) := by
  intro fault h
  cases h

theorem failsWith_error {fault : CodecError} (h : P fault) :
    FailsWith P (.error fault : Except CodecError α) := by
  intro other hother
  cases hother
  exact h

theorem FailsWith.mono {x : Except CodecError α} {Q : CodecError → Prop} (h : FailsWith P x)
    (himp : ∀ fault, P fault → Q fault) : FailsWith Q x := by
  intro fault hfault
  exact himp fault (h fault hfault)

theorem FailsWith.bind {x : Except CodecError α} {f : α → Except CodecError β}
    (hx : FailsWith P x) (hf : ∀ a, x = .ok a → FailsWith P (f a)) : FailsWith P (x >>= f) := by
  cases x with
  | error fault =>
    intro other hother
    cases hother
    exact hx fault rfl
  | ok a => exact hf a rfl

theorem failsWith_mapM {f : α → Except CodecError β} {items : List α}
    (hf : ∀ a ∈ items, FailsWith P (f a)) : FailsWith P (items.mapM f) := by
  induction items with
  | nil => exact failsWith_ok []
  | cons item items ih =>
    rw [List.mapM_cons]
    refine (hf item (by simp)).bind fun b _ => ?_
    refine (ih fun a ha => hf a (by simp [ha])).bind fun bs _ => ?_
    exact failsWith_ok (b :: bs)

end

/-- A computation that no fault of the layout ends. -/
def BlamesInput {α : Type} (x : Except CodecError α) : Prop :=
  ∀ fault, x = .error fault → ¬fault.OfLayout

section

variable {α β : Type}

theorem blamesInput_ok (a : α) : BlamesInput (.ok a) :=
  failsWith_ok a

theorem blamesInput_error {fault : CodecError} (h : ¬fault.OfLayout) :
    BlamesInput (.error fault : Except CodecError α) :=
  failsWith_error h

theorem BlamesInput.bind {x : Except CodecError α} {f : α → Except CodecError β}
    (hx : BlamesInput x) (hf : ∀ a, x = .ok a → BlamesInput (f a)) : BlamesInput (x >>= f) :=
  FailsWith.bind hx hf

end

theorem Record.blamesInput_require (record : Record) (name : String) :
    BlamesInput (record.require name) := by
  unfold Record.require
  cases record.get? name with
  | none => exact blamesInput_error (by simp)
  | some value => exact blamesInput_ok value

theorem Value.blamesInput_asRecord (value : Value) (name : String) :
    BlamesInput (value.asRecord name) := by
  cases value with
  | record inner => exact blamesInput_ok inner
  | _ => exact blamesInput_error (Value.not_ofLayout_mismatch _ _ _)

namespace Codec

theorem blamesInput_textLength (name : String) (value : Value) :
    BlamesInput (textLength name value) := by
  cases value with
  | text s => exact blamesInput_ok _
  | _ => exact blamesInput_error (Value.not_ofLayout_mismatch _ _ _)

theorem blamesInput_arrayLength (name : String) (value : Value) :
    BlamesInput (arrayLength name value) := by
  cases value with
  | bytes b => exact blamesInput_ok _
  | array items => exact blamesInput_ok _
  | _ => exact blamesInput_error (Value.not_ofLayout_mismatch _ _ _)

theorem blamesInput_scaled (name : String) (count scale : Nat) :
    BlamesInput (scaled name count scale) := by
  unfold scaled
  split
  · exact blamesInput_ok _
  · exact blamesInput_error (by simp)

theorem blamesInput_locate (name : String) (base : Nat) (offset : Offset) (spans : List Nat) :
    BlamesInput (locate name base offset spans) := by
  unfold locate
  split
  · exact blamesInput_ok _
  · exact blamesInput_error (by simp)

theorem blamesInput_spanOf {layout : Layout} {length : Nat} (h : layout.staticSize ≤ length) :
    BlamesInput (spanOf layout length) := by
  unfold spanOf
  rw [if_pos h]
  exact blamesInput_ok _

end Codec

/-! ## Values of a record -/

theorem Record.require_eq_ok_iff {record : Record} {name : String} {value : Value} :
    record.require name = .ok value ↔ record.get? name = some value := by
  unfold Record.require
  cases record.get? name <;> simp

theorem Value.asRecord_eq_ok_iff {value : Value} {name : String} {inner : Record} :
    value.asRecord name = .ok inner ↔ value = .record inner := by
  cases value <;> simp [Value.asRecord]

theorem Codec.textLength_eq_ok_iff {name : String} {value : Value} {n : Nat} :
    Codec.textLength name value = .ok n ↔ ∃ s, value = .text s ∧ Utf8.length s = n := by
  cases value <;> simp [Codec.textLength]

/-! ## Spans and counts -/

theorem Codec.scaled_eq_ok_iff {name : String} {count scale span : Nat} :
    Codec.scaled name count scale = .ok span ↔ count * scale = span ∧ span < Size.limit := by
  unfold Codec.scaled
  rw [← Size.mul?_eq_some_iff]
  cases Size.mul? count scale <;> simp

theorem Codec.spanOf_eq_ok_iff {layout : Layout} {length span : Nat} :
    Codec.spanOf layout length = .ok span ↔
      layout.staticSize ≤ length ∧ length - layout.staticSize = span := by
  unfold Codec.spanOf
  split
  · next hle => simp [hle]
  · next hle => simp [hle]

/-- A count below the limit of a type is a number of that type. -/
theorem Scalar.toInt?_ofNat {type : Primitive} {count : Nat} (h : count < type.countLimit) :
    (Scalar.ofNat type count).bits.toNat = count ∧
      (Scalar.ofNat type count).toInt? = some (count : Int) := by
  have hfits : type.isInteger = true ∧ count < 2 ^ type.bitWidth ∧
      (type.isSigned = true → 2 * count < 2 ^ type.bitWidth) := by
    cases type <;>
      simp only [Primitive.countLimit, Primitive.isInteger, Primitive.isSigned,
        Primitive.bitWidth] at h ⊢ <;>
      simp at h ⊢ <;> omega
  obtain ⟨hinteger, hlt, hsigned⟩ := hfits
  have hbits : (Scalar.ofNat type count).bits.toNat = count := by
    rw [Scalar.ofNat, BitVec.toNat_ofNat, Nat.mod_eq_of_lt hlt]
  refine ⟨hbits, ?_⟩
  have htype : (Scalar.ofNat type count).type = type := rfl
  by_cases hsign : type.isSigned = true
  · have hint : (Scalar.ofNat type count).bits.toInt = count := by
      rw [BitVec.toInt_eq_toNat_cond, hbits]
      exact if_pos (hsigned hsign)
    simp [Scalar.toInt?, htype, hinteger, hsign, hint]
  · simp [Scalar.toInt?, htype, hinteger, hsign, hbits]

/-- A count that is read from a scalar is small enough for its type. -/
theorem Scalar.lt_countLimit {s : Scalar} {count : Nat} (h : s.toInt? = some (count : Int)) :
    s.bits.toNat = count ∧ count < s.type.countLimit := by
  have hlt := s.bits.isLt
  have hint := BitVec.toInt_eq_toNat_cond s.bits
  obtain ⟨type, bits⟩ := s
  cases type <;>
    simp only [Scalar.toInt?, Primitive.isInteger, Primitive.isSigned, Primitive.countLimit,
      Primitive.bitWidth] at h hlt hint ⊢ <;>
    simp at h hlt hint ⊢ <;> omega

theorem Scalar.toInt?_lt {s : Scalar} {i : Int} (h : s.toInt? = some i) : i < Size.limit := by
  have hbits : s.bits.toNat < Size.limit := by
    have hwidth : s.type.bitWidth ≤ 64 := by
      cases s.type <;> decide
    exact Nat.lt_of_lt_of_le s.bits.isLt (Nat.pow_le_pow_right (by decide) hwidth)
  unfold Scalar.toInt? at h
  split at h
  · cases h
  · split at h
    · cases h
      rw [BitVec.toInt_eq_toNat_cond]
      split <;> omega
    · cases h
      omega

/-- The count that a field carries is a size. -/
theorem Codec.countOf_lt {name : String} {value : Value} {count : Nat}
    (h : Codec.countOf name value = .ok count) : count < Size.limit := by
  unfold Codec.countOf at h
  split at h
  · cases h
  · next i hi =>
    split at h
    · cases h
    · cases h
      cases value with
      | scalar s =>
        have := Scalar.toInt?_lt hi
        omega
      | _ => cases hi

/-! ## Buffers -/

theorem Codec.ensure_eq_ok_iff {buf : Bytes} {required : Nat} :
    Codec.ensure buf required = .ok () ↔ required ≤ buf.length := by
  unfold Codec.ensure
  split
  · simp only [reduceCtorEq, false_iff]
    omega
  · simp only [true_iff]
    omega

theorem Codec.ensure_eq_ok {buf : Bytes} {required : Nat} (h : required ≤ buf.length) :
    Codec.ensure buf required = .ok () :=
  Codec.ensure_eq_ok_iff.mpr h

/-- A sum that a buffer has room for does not saturate. -/
theorem Size.addSat_le {a b n : Nat} (h : a + b ≤ n) : Size.addSat a b ≤ n :=
  Nat.le_trans (Nat.min_le_left _ _) h

theorem Size.addSat_eq {a b n : Nat} (h : a + b ≤ n) (hlt : n < Size.limit) :
    Size.addSat a b = a + b :=
  Nat.min_eq_left (by unfold Size.largest; omega)

theorem Codec.readScalar_eq_ok {type : Primitive} {buf : Bytes} {position : Nat} {s : Scalar}
    (h : Codec.readScalar type buf position = .ok s) :
    Size.addSat position type.width ≤ buf.length := by
  rw [Codec.readScalar, bind_eq_ok_iff] at h
  obtain ⟨_, hensure, -⟩ := h
  exact Codec.ensure_eq_ok_iff.mp hensure

end PacketWire
