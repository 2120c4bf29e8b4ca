import PacketWire.Codec.Write
import PacketWire.Proofs.Codec.Plan

/-!
# Writing by position

Writing a record by its plan fills one window of the buffer, field after field, and what it leaves
there is the serialisation. Where the record has no serialisation the writer fails, for a reason
that lies in the record, and it has then touched nothing outside the window either.

* `Write.Fills.seq`: windows that stand side by side make one window.
* `Layout.WellFormed.writes`: a layout fills the window of its plan.
-/

namespace PacketWire

/-! ## Windows -/

/-- A buffer with some bytes over those at a position. -/
def Bytes.overwrite (buf : Bytes) (position : Nat) (src : Bytes) : Bytes :=
  buf.take position ++ src ++ buf.drop (position + src.length)

/-- A computation that overwrites a window of the buffer and nothing else. It succeeds when there
is something to be written, and then that is in the window. Where it fails, the layout is not to
blame. -/
def Write.Fills (w : Write Unit) (position width : Nat) (out : Option Bytes) : Prop :=
  ∀ buf : Bytes, position + width ≤ buf.length → ∃ src : Bytes, src.length = width ∧
    match w buf with
    | .ok _ buf' => out = some src ∧ buf' = buf.overwrite position src
    | .error fault buf' =>
      (out = none ∧ ¬fault.OfLayout) ∧ buf' = buf.overwrite position src

namespace Bytes

/-- The bytes of a window, put back in place. -/
theorem overwrite_self {buf : Bytes} {position width : Nat} (h : position + width ≤ buf.length) :
    ((buf.drop position).take width).length = width ∧
      buf.overwrite position ((buf.drop position).take width) = buf := by
  have hlength : ((buf.drop position).take width).length = width := by
    rw [List.length_take, List.length_drop]
    omega
  refine ⟨hlength, ?_⟩
  rw [overwrite, hlength, List.append_assoc, ← List.drop_drop, List.take_append_drop,
    List.take_append_drop]

theorem length_overwrite {buf src : Bytes} {position : Nat}
    (h : position + src.length ≤ buf.length) : (buf.overwrite position src).length = buf.length := by
  simp only [overwrite, List.length_append, List.length_take, List.length_drop]
  omega

/-- Bytes beside the window that is overwritten stay. -/
theorem getElem?_overwrite {buf src : Bytes} {position i : Nat}
    (h : position + src.length ≤ buf.length) (hi : i < position ∨ position + src.length ≤ i) :
    (buf.overwrite position src)[i]? = buf[i]? := by
  have hhead : (buf.take position).length = position := by
    rw [List.length_take]
    omega
  have hwindow : (buf.take position ++ src).length = position + src.length := by
    rw [List.length_append, hhead]
  unfold overwrite
  rcases hi with hi | hi
  · rw [List.append_assoc, List.getElem?_append_left (by omega), List.getElem?_take_of_lt hi]
  · rw [List.getElem?_append_right (by omega), hwindow, List.getElem?_drop]
    congr 1
    omega

/-- Bytes written behind bytes that were written before. -/
theorem overwrite_append {buf front back : Bytes} {position : Nat}
    (h : position + front.length ≤ buf.length) :
    (buf.overwrite position front).overwrite (position + front.length) back =
      buf.overwrite position (front ++ back) := by
  have hhead : (buf.take position ++ front).length = position + front.length := by
    rw [List.length_append, List.length_take]
    omega
  have hdrop : ∀ bytes : Bytes, bytes.drop (position + front.length + back.length) =
      (bytes.drop (position + front.length)).drop back.length := fun bytes =>
    List.drop_drop.symm
  simp only [overwrite]
  rw [List.take_left' hhead, hdrop, List.drop_left' hhead, List.drop_drop, List.length_append]
  simp only [List.append_assoc, Nat.add_assoc]

end Bytes

namespace Write

theorem bind_apply {α β : Type} (w : Write α) (f : α → Write β) (buf : Bytes) :
    (w >>= f) buf = match w buf with
      | .ok a buf' => f a buf'
      | .error fault buf' => .error fault buf' := by
  show EStateM.bind w f buf = _
  unfold EStateM.bind
  cases w buf <;> rfl

theorem fills_throw {fault : CodecError} (hfault : ¬fault.OfLayout) (position width : Nat) :
    Fills (throw fault) position width none := by
  intro buf h
  obtain ⟨hlength, hself⟩ := Bytes.overwrite_self h
  exact ⟨_, hlength, ⟨rfl, hfault⟩, hself.symm⟩

theorem fills_pure (position : Nat) : Fills (pure ()) position 0 (some []) := by
  intro buf h
  exact ⟨[], rfl, rfl, by simp [Bytes.overwrite]⟩

theorem put_apply (position : Nat) (src buf : Bytes) :
    put position src buf = match buf.splice? position src with
      | some buf' => .ok () buf'
      | none => .error .outOfBounds buf := by
  rw [put, bind_apply, show (get : Write Bytes) buf = .ok buf buf from rfl]
  dsimp only
  cases buf.splice? position src <;> rfl

theorem fills_put (position : Nat) (src : Bytes) :
    Fills (put position src) position src.length (some src) := by
  intro buf h
  refine ⟨src, rfl, ?_⟩
  have hput : Write.put position src buf = .ok () (buf.overwrite position src) := by
    rw [put_apply, Bytes.splice?, if_pos h]
    rfl
  rw [hput]
  exact ⟨rfl, rfl⟩

/-- What comes before the first byte is written. -/
theorem fills_lift {α : Type} {e : Except CodecError α} {f : α → Write Unit} {position width : Nat}
    {out : Option Bytes} (hok : ∀ a, e = .ok a → Fills (f a) position width out)
    (hinput : BlamesInput e) (herror : ∀ fault, e = .error fault → out = none) :
    Fills (lift e >>= f) position width out := by
  cases e with
  | ok a => exact hok a rfl
  | error fault =>
    rw [herror fault rfl]
    exact fills_throw (hinput fault rfl) position width

/-- A buffer that holds the window lets it be taken. -/
theorem fills_window {w : Write Unit} {position width : Nat} {out : Option Bytes}
    (h : Fills w position width out) : Fills (do window position width; w) position width out := by
  intro buf hlong
  have hwindow : window position width buf = .ok () buf := by
    rw [window, bind_apply, show (get : Write Bytes) buf = .ok buf buf from rfl]
    dsimp only
    rw [if_neg (Nat.not_lt.mpr hlong)]
    rfl
  rw [bind_apply, hwindow]
  exact h buf hlong

/-- Windows that stand side by side make one window. -/
theorem Fills.seq {first second : Write Unit} {position width more : Nat} {out out' : Option Bytes}
    (hfirst : Fills first position width out) (hsecond : Fills second (position + width) more out') :
    Fills (first >>= fun _ => second) position (width + more)
      (out.bind fun front => out'.map (front ++ ·)) := by
  intro buf h
  obtain ⟨front, hfront, hrun⟩ := hfirst buf (by omega)
  rw [bind_apply]
  cases hw : first buf with
  | error fault buf' =>
    rw [hw] at hrun
    obtain ⟨⟨rfl, hfault⟩, rfl⟩ := hrun
    have hlong : position + width + more ≤ (buf.overwrite position front).length := by
      rw [Bytes.length_overwrite (by omega)]
      omega
    obtain ⟨hlength, hself⟩ := Bytes.overwrite_self hlong
    refine ⟨front ++ ((buf.overwrite position front).drop (position + width)).take more,
      by rw [List.length_append, hfront, hlength], ⟨rfl, hfault⟩, ?_⟩
    rw [← Bytes.overwrite_append (by omega), hfront, hself]
  | ok _ buf' =>
    rw [hw] at hrun
    obtain ⟨rfl, rfl⟩ := hrun
    have hlong : position + width + more ≤ (buf.overwrite position front).length := by
      rw [Bytes.length_overwrite (by omega)]
      omega
    obtain ⟨back, hback, hrun'⟩ := hsecond _ hlong
    have hboth : (buf.overwrite position front).overwrite (position + width) back =
        buf.overwrite position (front ++ back) := by
      rw [← hfront, Bytes.overwrite_append (by omega)]
    refine ⟨front ++ back, by rw [List.length_append, hfront, hback], ?_⟩
    dsimp only
    cases hw' : second (buf.overwrite position front) with
    | error fault buf'' =>
      rw [hw'] at hrun'
      obtain ⟨⟨rfl, hfault⟩, rfl⟩ := hrun'
      exact ⟨⟨rfl, hfault⟩, hboth⟩
    | ok _ buf'' =>
      rw [hw'] at hrun'
      obtain ⟨rfl, rfl⟩ := hrun'
      exact ⟨rfl, hboth⟩

/-- Items written at the multiples of a stride. -/
theorem fills_forM {α : Type} {w : α → Nat → Write Unit} {f : α → Option Bytes} {items : List α}
    {stride stop : Nat}
    (hitem : ∀ a ∈ items, ∀ p, p + stride ≤ stop → Fills (w a p) p stride (f a))
    {position index : Nat} (hstop : position + (index + items.length) * stride ≤ stop) :
    Fills ((items.zipIdx index).forM fun (a, k) => w a (position + k * stride))
      (position + index * stride) (items.length * stride) (concat? f items) := by
  induction items generalizing index with
  | nil =>
    rw [List.length_nil, Nat.zero_mul]
    exact fills_pure _
  | cons a items ih =>
    have hnext : position + (index + 1) * stride = position + index * stride + stride := by
      rw [Nat.succ_mul]
      omega
    have hend : index + (a :: items).length = index + 1 + items.length := by
      rw [List.length_cons]
      omega
    rw [hend] at hstop
    have hrest := ih (fun b hb => hitem b (by simp [hb])) hstop
    rw [hnext] at hrest
    have hle : position + index * stride + stride ≤ stop := by
      have : (index + 1) * stride ≤ (index + 1 + items.length) * stride :=
        Nat.mul_le_mul_right _ (by omega)
      omega
    have hseq := (hitem a (by simp) _ hle).seq hrest
    rw [List.length_cons, Nat.succ_mul, Nat.add_comm (items.length * stride)]
    exact hseq

/-! ## Scalars, counts and texts -/

theorem fills_scalar (field : String) (type : Primitive) (value : Value) (position : Nat) :
    Fills (scalar field type value position) position type.width (value.scalarBytes? type) := by
  refine fills_window ?_
  cases value with
  | scalar s =>
    dsimp only
    rw [Value.scalarBytes?]
    by_cases htype : s.type = type
    · subst htype
      rw [if_pos rfl, if_pos rfl]
      have := fills_put position s.toBytes
      rwa [Scalar.length_toBytes] at this
    · rw [if_neg htype, if_neg htype]
      exact fills_throw (Value.not_ofLayout_mismatch _ _ _) _ _
  | _ => exact fills_throw (Value.not_ofLayout_mismatch _ _ _) _ _

theorem fills_count (field sizeField : String) (type : Primitive) (n position : Nat) :
    Fills (count field sizeField type n position) position type.width
      (FieldCodec.countBytes? (.scalar type) n) := by
  rw [Write.count, Scalar.ofCount?, FieldCodec.countBytes?]
  by_cases hlt : n < type.countLimit
  · rw [if_pos hlt, if_pos hlt]
    have hbytes : (Scalar.ofNat type n).toBytes = Bytes.littleEndian type.width n := by
      rw [Scalar.toBytes, (Scalar.toInt?_ofNat hlt).1]
      rfl
    have := fills_put position (Scalar.ofNat type n).toBytes
    rw [Scalar.length_toBytes, hbytes] at this
    rw [← hbytes] at this ⊢
    exact this
  · rw [if_neg hlt, if_neg hlt]
    exact fills_throw (by simp) _ _

/-- The bytes of a text that is written are those of its serialisation. -/
theorem textBytes_eq_ok_iff {field : String} {value : Value} {bytes : Bytes} :
    textBytes field value = .ok bytes ↔
      ∃ s, value = .text s ∧ Value.asciiBytes? s = some bytes := by
  cases value with
  | text s =>
    simp only [Value.text.injEq, exists_eq_left', Value.asciiBytes?_eq_some_iff, Write.textBytes]
    by_cases hascii : s.toList.all (·.toNat < 0x80) = true
    · rw [if_neg (by simp [hascii])]
      simp only [List.all_eq_true, decide_eq_true_eq] at hascii
      by_cases hnul : s.toList.contains '\x00' = true
      · rw [if_pos hnul]
        rw [List.contains_iff_mem] at hnul
        simp only [reduceCtorEq, false_iff, not_and]
        intro hall
        exact absurd (hall _ hnul).1 (by decide)
      · rw [if_neg hnul]
        rw [List.contains_iff_mem] at hnul
        have hall : ∀ c ∈ s.toList, 0 < c.toNat ∧ c.toNat < 0x80 := by
          intro c hc
          refine ⟨Nat.pos_of_ne_zero fun hzero => hnul ?_, hascii c hc⟩
          have hchar : c = '\x00' := Char.toNat_inj.mp hzero
          exact hchar ▸ hc
        simp only [Except.ok.injEq]
        exact ⟨fun h => ⟨hall, h.symm⟩, fun h => h.2.symm⟩
    · rw [if_pos (by simpa using hascii)]
      simp only [reduceCtorEq, false_iff, not_and]
      intro hall
      refine absurd ?_ hascii
      simp only [List.all_eq_true, decide_eq_true_eq]
      exact fun c hc => (hall c hc).2
  | _ => simp [Write.textBytes]

theorem blamesInput_textBytes (field : String) (value : Value) :
    BlamesInput (textBytes field value) := by
  cases value with
  | text s =>
    rw [textBytes]
    split
    · exact blamesInput_error (by simp)
    · split
      · exact blamesInput_error (by simp)
      · exact blamesInput_ok _
  | _ => exact blamesInput_error (Value.not_ofLayout_mismatch _ _ _)

theorem fills_text (field : String) {textWidth : TextWidth} {value : Value} {position width : Nat}
    (hwidth : ∀ bytes, FieldCodec.serial? (.text textWidth) value = some bytes →
      bytes.length = width) :
    Fills (text field textWidth value position) position width
      (FieldCodec.serial? (.text textWidth) value) := by
  refine fills_lift (fun bytes hbytes => ?_) (blamesInput_textBytes field value)
    fun fault hfault => ?_
  · obtain ⟨s, rfl, hascii⟩ := textBytes_eq_ok_iff.mp hbytes
    rw [FieldCodec.serial?, TextWidth.bytes?, hascii, Option.bind_some] at hwidth ⊢
    cases textWidth with
    | fixed capacity =>
      dsimp only at hwidth ⊢
      by_cases hle : bytes.length ≤ capacity
      · rw [if_pos hle] at hwidth ⊢
        rw [if_neg (Nat.not_lt.mpr hle), ← hwidth _ rfl]
        exact fills_put _ _
      · rw [if_neg hle, if_pos (Nat.lt_of_not_le hle)]
        exact fills_throw (by simp) _ _
    | counted source =>
      dsimp only at hwidth ⊢
      rw [if_neg (by omega), Nat.add_sub_cancel_left, ← hwidth _ rfl]
      exact fills_put _ _
  · cases value with
    | text s =>
      rw [FieldCodec.serial?, TextWidth.bytes?]
      cases hascii : Value.asciiBytes? s with
      | none => rfl
      | some bytes =>
        rw [textBytes_eq_ok_iff.mpr ⟨s, rfl, hascii⟩] at hfault
        cases hfault
    | _ => rfl

/-! ## Arrays -/

theorem scalars_array (field : String) (type : Primitive) (items : List Value) (position : Nat) :
    scalars field type (.array items) position =
      (items.zipIdx 0).forM fun (item, k) =>
        scalar field type item (position + k * type.width) := by
  cases type <;> rfl

theorem fills_scalars (field : String) {type : Primitive} {value : Value} {position width : Nat}
    (hwidth : ∀ n, value.length? = some n → n * type.width = width) :
    Fills (scalars field type value position) position width
      (ElementCodec.serial? (.scalar type) value) := by
  cases value with
  | bytes b =>
    by_cases hbyte : type = .u8
    · subst hbyte
      rw [← hwidth b.length rfl, Primitive.width, Nat.mul_one]
      exact fills_put _ _
    · have hnone : ElementCodec.serial? (.scalar type) (.bytes b) = none := by
        cases type <;> first | rfl | exact absurd rfl hbyte
      have hthrow : scalars field type (.bytes b) position =
          throw ((Value.bytes b).mismatch field "array") := by
        cases type <;> first | rfl | exact absurd rfl hbyte
      rw [hnone, hthrow]
      exact fills_throw (Value.not_ofLayout_mismatch _ _ _) _ _
  | array items =>
    have hserial : ElementCodec.serial? (.scalar type) (.array items) =
        concat? (Value.scalarBytes? type) items := by
      cases type <;> rfl
    have hfills := fills_forM
      (fun item (_ : item ∈ items) p _ => fills_scalar field type item p)
      (Nat.le_refl (position + (0 + items.length) * type.width))
    rw [Nat.zero_mul, Nat.add_zero] at hfills
    rwa [hserial, scalars_array, ← hwidth items.length rfl]
  | _ => cases type <;> exact fills_throw (Value.not_ofLayout_mismatch _ _ _) _ _

end Write

/-! ## Layouts -/

namespace Layout

/-- A record that is written by its plan fills the window of the plan with its serialisation. -/
def Writes (layout : Layout) : Prop :=
  ∀ record p base, layout.plan record = .ok p → base + p.length < Size.limit →
    Write.Fills (layout.write record p base) (base + layout.start) (p.length - layout.start)
      (layout.serial? record)

/-- What writing a field relies on in the layouts inside it. -/
structure Writable (layout : Layout) : Prop where
  start : layout.start = 0
  serialSized : layout.SerialSized
  planSized : layout.PlanSized
  plans : layout.Plans
  blamesInput : ∀ record, BlamesInput (layout.plan record)
  writes : layout.Writes

theorem fills_struct {layout : Layout} (h : layout.Writable) (field : String) {value : Value}
    {position width : Nat} (hlt : position + width < Size.limit)
    (hplan : ∀ inner p, value = .record inner → layout.plan inner = .ok p → p.length = width)
    (hbody : ∀ inner body, value = .record inner → layout.serial? inner = some body →
      body.length ≤ width) :
    Write.Fills (do
        let inner ← Write.lift (value.asRecord field)
        let p ← Write.lift (layout.plan inner)
        layout.write inner p position)
      position width (value.record?.bind fun inner => layout.serial? inner) := by
  refine Write.fills_lift (fun inner hinner => ?_) (value.blamesInput_asRecord field)
    fun fault hfault => ?_
  · cases Value.asRecord_eq_ok_iff.mp hinner
    refine Write.fills_lift (fun p hp => ?_) (h.blamesInput inner) fun fault hfault => ?_
    · have hwrites := h.writes inner p position hp (by rw [hplan inner p rfl hp]; exact hlt)
      rwa [h.start, hplan inner p rfl hp] at hwrites
    · cases hserial : layout.serial? inner with
      | none => exact hserial
      | some body =>
        have := hbody inner body rfl hserial
        obtain ⟨p, hp⟩ := h.plans inner body hserial (by rw [h.start]; omega)
        rw [hp] at hfault
        cases hfault
  · cases value with
    | record inner => cases hfault
    | _ => rfl

theorem Writable.fixed {layout : Layout} (h : layout.Writable)
    (hdynamic : layout.isDynamic = false) :
    (∀ inner p, layout.plan inner = .ok p → p.length = layout.staticSize) ∧
      ∀ inner body, layout.serial? inner = some body → body.length ≤ layout.staticSize := by
  constructor
  · intro inner p hp
    exact Codec.length_of_locate_stop hdynamic (plan_eq_ok_iff.mp hp).2
  · intro inner body hbody
    have := (h.serialSized inner body hbody).2 hdynamic
    omega

theorem fills_elements {element : ElementCodec Layout} (hstrided : element.Strided)
    (hnested : ∀ inner ∈ element.nested, inner.Writable) (field : String) {value : Value}
    {position width : Nat} (hlt : position + width < Size.limit)
    (hwidth : ∀ n, value.length? = some n → n * element.size = width) :
    Write.Fills (writeElements element field value position) position width
      (element.serial? value) := by
  cases element with
  | scalar type =>
    rw [writeElements]
    exact Write.fills_scalars field hwidth
  | struct layout =>
    have hwritable := hnested layout (by simp [ElementCodec.nested])
    obtain ⟨hplan, hbody⟩ := hwritable.fixed hstrided.1
    cases value with
    | array items =>
      rw [writeElements, ElementCodec.serial?, ← hwidth items.length rfl]
      have hitem : ∀ item ∈ items, ∀ p, p + layout.staticSize ≤ position + width →
          Write.Fills (do
              let inner ← Write.lift (item.asRecord field)
              let plan ← Write.lift (layout.plan inner)
              layout.write inner plan p)
            p layout.staticSize (item.record?.bind fun record => layout.serial? record) :=
        fun item _ p hp => fills_struct hwritable field (by omega)
          (fun inner plan _ => hplan inner plan) fun inner body _ => hbody inner body
      have hstop : position + (0 + items.length) * layout.staticSize ≤ position + width := by
        rw [← hwidth items.length rfl, Nat.zero_add]
        exact Nat.le_refl _
      have hfills := Write.fills_forM hitem hstop
      rwa [Nat.zero_mul, Nat.add_zero] at hfills
    | _ => exact Write.fills_throw (Value.not_ofLayout_mismatch _ _ _) _ _

theorem fills_require {record : Record} {name : String} {write : Value → Write Unit}
    {serial : Value → Option Bytes} {position width : Nat}
    (h : ∀ value, record.get? name = some value →
      Write.Fills (write value) position width (serial value)) :
    Write.Fills (Write.lift (record.require name) >>= write) position width
      ((record.get? name).bind serial) := by
  refine Write.fills_lift (fun value hvalue => ?_) (record.blamesInput_require name)
    fun fault hfault => ?_
  · have hget := Record.require_eq_ok_iff.mp hvalue
    rw [hget, Option.bind_some]
    exact h value hget
  · cases hget : record.get? name with
    | none => rfl
    | some value =>
      rw [Record.require_eq_ok_iff.mpr hget] at hfault
      cases hfault

/-- A field that counts nothing fills its fixed width and its span with its value. -/
theorem fills_value {codec : FieldCodec Layout} {slot : Slot} {record : Record}
    {position span : Nat} (hsized : codec.Sized)
    (hnested : ∀ inner ∈ codec.nested, inner.Writable)
    (hspanned : codec.Spanned (record.get? slot.name) span)
    (hlt : position + (codec.staticWidth + span) < Size.limit) (names : List String) :
    Write.Fills (writeField codec slot names record none position) position
      (codec.staticWidth + span) ((record.get? slot.name).bind codec.serial?) := by
  have hlength : ∀ value, record.get? slot.name = some value → ∀ bytes,
      codec.serial? value = some bytes → bytes.length = codec.staticWidth + span :=
    fun value hvalue bytes hbytes => length_serial_of_spanned hsized
      (fun inner hinner => ⟨(hnested inner hinner).start, (hnested inner hinner).serialSized,
        (hnested inner hinner).planSized⟩) (hvalue ▸ hspanned) hbytes
  cases codec with
  | scalar type =>
    rw [writeField, hspanned.fixed rfl]
    exact fills_require fun value _ => Write.fills_scalar slot.name type value position
  | text width =>
    rw [writeField]
    exact fills_require fun value hvalue => Write.fills_text slot.name (hlength value hvalue)
  | array element length =>
    rw [writeField, hspanned.fixed rfl] at *
    refine fills_require fun value hvalue => Write.fills_lift (fun n hn => ?_)
      (Codec.blamesInput_arrayLength slot.name value) fun fault hfault => ?_
    · have hcount := Codec.length?_of_arrayLength hn
      rw [FieldCodec.serial?, hcount]
      by_cases hsame : n = length
      · subst hsame
        rw [if_pos rfl, if_pos rfl]
        refine fills_elements hsized.1 hnested slot.name hlt fun m hm => ?_
        rw [hcount, Option.some.injEq] at hm
        rw [← hm, FieldCodec.staticWidth, Nat.mul_comm]
        rfl
      · rw [if_neg hsame, if_neg (by simpa using hsame)]
        exact Write.fills_throw (by simp) _ _
    · rw [FieldCodec.serial?]
      split
      · next hcount =>
        cases hserial : element.serial? value with
        | none => rfl
        | some bytes =>
          rw [arrayLength_of_serial hserial hcount] at hfault
          cases hfault
      · rfl
  | list element source =>
    rw [writeField]
    refine fills_require fun value hvalue => ?_
    rw [FieldCodec.serial?]
    refine fills_elements hsized hnested slot.name hlt fun n hn => ?_
    obtain ⟨found, m, hfound, hm, rfl⟩ := hspanned.counted source element.size rfl
    rw [hvalue] at hfound
    cases hfound
    rw [hn, Option.some.injEq] at hm
    rw [hm, FieldCodec.staticWidth, Nat.zero_add]
  | struct layout =>
    have hwritable := hnested layout (by simp [FieldCodec.nested])
    rw [writeField]
    refine fills_require fun value hvalue => ?_
    have hserial : (FieldCodec.struct layout).serial? value =
        value.record?.bind fun inner => layout.serial? inner := by
      cases value <;> rfl
    rw [hserial]
    refine fills_struct hwritable slot.name hlt ?_ ?_
    · rintro inner p rfl hp
      by_cases hdynamic : layout.isDynamic = true
      · obtain ⟨found, plan, hfound, hplan, hle, rfl⟩ := hspanned.nested layout rfl hdynamic
        rw [hvalue] at hfound
        cases hfound
        rw [hp] at hplan
        cases hplan
        rw [FieldCodec.staticWidth]
        omega
      · rw [hspanned.fixed (by simp [FieldCodec.span?, hdynamic])]
        exact (hwritable.fixed (Bool.eq_false_iff.mpr hdynamic)).1 inner p hp
    · rintro inner body rfl hbody
      exact Nat.le_of_eq (hlength _ hvalue body hbody)

/-- A field fills its fixed width and its span. -/
theorem fills_field {field : FieldLayout Layout} {names : List String} {record : Record}
    {count : Option Nat} {position span : Nat} (hsized : field.codec.Sized)
    (hnested : ∀ inner ∈ field.codec.nested, inner.Writable)
    (hspanned : field.codec.Spanned (record.get? field.name) span)
    (hcount : count = if field.isSizeField then record.commonLength? names field.dependents else none)
    (hsize : field.isSizeField = true → count ≠ none ∧ ∃ type, field.codec = .scalar type)
    (hlt : position + (field.codec.staticWidth + span) < Size.limit) :
    Write.Fills (writeField field.codec field.toSlot names record count position) position
      (field.codec.staticWidth + span) (field.bytes? names record) := by
  rw [FieldLayout.bytes?]
  by_cases hcarrier : field.isSizeField = true
  · obtain ⟨hsome, type, htype⟩ := hsize hcarrier
    rw [if_pos hcarrier] at hcount ⊢
    rw [htype] at hspanned
    cases count with
    | none => exact absurd rfl hsome
    | some n =>
      rw [← hcount, Option.bind_some, htype, writeField, hspanned.fixed rfl]
      exact Write.fills_count _ _ _ _ _
  · rw [if_neg hcarrier] at hcount ⊢
    rw [hcount]
    exact fills_value hsized hnested hspanned hlt names

theorem writeFields_cons (field : FieldLayout Layout) (fields : List (FieldLayout Layout))
    (names : List String) (record : Record) (p : Plan) (base index : Nat) :
    writeFields (field :: fields) names record p base index = (do
      let position ← Write.lift (Codec.locate field.name base field.offset p.spans)
      writeField field.codec field.toSlot names record (p.counts.lookup index) position
      writeFields fields names record p base (index + 1)) := by
  cases field
  rw [writeFields]

/-- Fields that stand one behind the other fill adjacent windows. -/
theorem fills_fields {layout : Layout} (coherent : layout.Coherent)
    (hnested : ∀ inner ∈ layout.nested, inner.Writable) {record : Record} {p : Plan} {base : Nat}
    (hclaims : record.Claims layout.fields p.counts) {index : Nat} {offset stop : Offset}
    {done fields : List (FieldLayout Layout)} (htiled : Tiled index offset fields stop)
    (hfields : layout.fields = done ++ fields) (hdone : index = done.length)
    {spans new : List Nat} (hspans : p.spans = spans ++ new) (hindex : index = spans.length)
    {position : Nat} (hstands : offset.Stands base spans position)
    (hspanned : List.Forall₂
      (fun field span => field.codec.Spanned (record.get? field.name) span) fields new) :
    ∃ width, stop.Stands base p.spans (position + width) ∧
      (position + width < Size.limit →
        Write.Fills (writeFields fields (layout.fields.map (·.name)) record p base index) position
          width (serialFields? fields (layout.fields.map (·.name)) record)) := by
  induction htiled generalizing done spans new position with
  | nil index stop =>
    cases hspanned
    rw [List.append_nil] at hspans
    refine ⟨0, hspans ▸ hstands, fun _ => ?_⟩
    rw [writeFields, serialFields?]
    exact Write.fills_pure position
  | @cons index field fields stop label _ ih =>
    obtain ⟨span, later, hfield, hlater, rfl⟩ := List.forall₂_cons_left_iff.mp hspanned
    have hmem : field ∈ layout.fields := by simp [hfields]
    have hget : layout.fields[index]? = some field := by simp [hfields, hdone]
    have hnext := hstands.behind hfield.fixed label
    rw [← hindex] at hnext
    have hsplit : layout.fields = (done ++ [field]) ++ fields := by simp [hfields]
    have hspans' : p.spans = (spans ++ [span]) ++ later := by simp [hspans]
    obtain ⟨width, hstop, hrest⟩ := ih hsplit (by simp [hdone]) hspans' (by simp [hindex]) hnext
      hlater
    have hmove : position + field.codec.staticWidth + span + width =
        position + (field.codec.staticWidth + span + width) := by
      omega
    refine ⟨field.codec.staticWidth + span + width, hmove ▸ hstop, fun hlt => ?_⟩
    obtain ⟨hcount, hsome⟩ := lookup_counts coherent hclaims hget
    have hlocate : Codec.locate field.name base field.offset p.spans = .ok position :=
      Codec.locate_of_stands (hspans ▸ hstands.extend (span :: later)) (by omega)
    have hwindow := fills_field (coherent.sized field hmem)
      (fun inner hinner => hnested inner (mem_nested hmem hinner)) hfield hcount
      (fun hsize => ⟨hsome hsize, coherent.codec_of_mem hmem hsize⟩)
      (show position + (field.codec.staticWidth + span) < Size.limit by omega)
    rw [writeFields_cons, serialFields?_cons, hlocate]
    exact hwindow.seq (Nat.add_assoc position _ span ▸ hrest (by omega))

theorem write_eq (layout : Layout) (record : Record) (p : Plan) (base : Nat) :
    layout.write record p base = (do
      Write.ensure (Size.addSat base p.length)
      writeFields layout.fields (layout.fields.map (·.name)) record p base 0) := by
  cases layout
  rw [write]

/-- A buffer with room for the window is not refused. -/
theorem fills_ensure {w : Write Unit} {required position width : Nat} {out : Option Bytes}
    (h : Write.Fills w position width out) (hrequired : required ≤ position + width) :
    Write.Fills (do Write.ensure required; w) position width out := by
  intro buf hlong
  have hensure : Write.ensure required buf = .ok () buf := by
    show Write.lift (Codec.ensure buf required) buf = _
    rw [Codec.ensure_eq_ok (by omega)]
    rfl
  rw [Write.bind_apply, hensure]
  exact h buf hlong

/-- A layout fills the window of its plan. -/
theorem WellFormed.writes {layout : Layout} (h : layout.WellFormed) : layout.Writes := by
  induction h with
  | @intro layout coherent hwell ih =>
    intro record p base hplan hlt
    obtain ⟨hspanned, hclaims, htotal, -⟩ := plan_eq_ok hplan
    have hnested : ∀ inner ∈ layout.nested, inner.Writable := fun inner hinner =>
      ⟨coherent.starts inner hinner, (hwell inner hinner).length_serial,
        (hwell inner hinner).planSized, (hwell inner hinner).plans,
        (hwell inner hinner).blamesInput_plan, ih inner hinner⟩
    obtain ⟨width, hstop, hfills⟩ := fills_fields coherent hnested hclaims coherent.tiled
      (List.nil_append _).symm rfl (List.nil_append _).symm rfl
      (Offset.stands_start base layout.start) hspanned
    have hposition := hstop.position
    rw [htotal] at hposition
    have hwidth : p.length - layout.start = width := by
      omega
    have hrequired : Size.addSat base p.length ≤ base + layout.start + width :=
      Size.addSat_le (by omega)
    rw [write_eq, serial?_eq, hwidth]
    exact fills_ensure (hfills (by omega)) hrequired

end Layout

end PacketWire
