import Nazh.Io.Borrowers
import Nazh.Io.CanShared

/-!
# Which frames are selected

Three nodes are set up with an identifier and a kind of frames. Two of them compare both with those
of a frame. The filter of a `canRead` compares the bits that an identifier of the kind may have, and
the one for standard frames does not ask for the kind: it takes an extended frame for a standard
one with the same low bits.
-/

namespace Nazh

/-- The greatest identifier of a kind of frames, which is all of its bits. -/
def maxCanId (isExtended : Bool) : UInt32 := if isExtended then 0x1FFFFFFF else 0x7FF

/-- `validate_can_id`. -/
def validateCanId (canId : UInt32) (isExtended : Bool) : Except CanError Unit :=
  if isExtended then
    if canId ≤ 0x1FFFFFFF then .ok ()
    else .error (.encodeFailed s!"扩展帧 ID 0x{String.ofList (paddedHex 8 canId)} 超过 29-bit 上限")
  else if canId ≤ 0x7FF then .ok ()
  else .error (.encodeFailed s!"标准帧 ID 0x{String.ofList (paddedHex 3 canId)} 超过 11-bit 上限")

/-- The signals that `process_can_frame` decodes from a frame. -/
def matchedSignals (signals : List SignalSourceSnapshot) (frame : CanFrame) :
    List SignalSourceSnapshot :=
  signals.filter fun
    | .canFrame canId isExtended _ _ _ _ => frame.id = canId && frame.isExtended = isExtended
    | _ => false

/-- A `canRead`, a listener and a `deviceSignalRead` with one identifier and kind select a frame if
it has both. -/
structure SelectsAlike (canId : UInt32) (isExtended : Bool) (frame : CanFrame) : Prop where
  canRead : matchesFilter (some canId) isExtended frame = true ↔
    frame.id = canId ∧ frame.isExtended = isExtended
  listener : ∀ byteOffset byteLength dataType byteOrder,
    let source := SignalSourceSnapshot.canFrame canId isExtended byteOffset byteLength dataType
      byteOrder
    source ∈ matchedSignals [source] frame ↔ matchesFilter (some canId) isExtended frame = true
  signalRead : awaitFrame canId isExtended [.ok (some frame)] = .ok frame ↔
    matchesFilter (some canId) isExtended frame = true

/-- The frame agrees with the identifier in the bits of its kind, and is an extended one if such
frames are read; but it has more bits, or it is an extended one where standard frames are read. -/
structure TakenForTarget (canId : UInt32) (isExtended : Bool) (frame : CanFrame) : Prop where
  bits : frame.id &&& maxCanId isExtended = canId
  kind : isExtended = true → frame.isExtended = true
  other : maxCanId isExtended < frame.id ∨ isExtended = false ∧ frame.isExtended = true

section Select

variable {canId : UInt32} {isExtended : Bool} {frame : CanFrame}

theorem validateCanId_eq_ok :
    validateCanId canId isExtended = .ok () ↔ canId ≤ maxCanId isExtended := by
  unfold validateCanId maxCanId
  cases isExtended with
  | true => by_cases h : canId ≤ 0x1FFFFFFF <;> simp [h]
  | false => by_cases h : canId ≤ 0x7FF <;> simp [h]

/-- The bits of a kind are all that a number has which is not greater. -/
theorem and_maxCanId (n : UInt32) : (n &&& maxCanId isExtended) ≤ maxCanId isExtended ∧
    (n &&& maxCanId isExtended = n ↔ n ≤ maxCanId isExtended) := by
  have hmask : ∃ bits, (maxCanId isExtended).toNat = 2 ^ bits - 1 := by
    cases isExtended with
    | true => exact ⟨29, rfl⟩
    | false => exact ⟨11, rfl⟩
  obtain ⟨bits, hbits⟩ := hmask
  have hand : (n &&& maxCanId isExtended).toNat = n.toNat % 2 ^ bits := by
    rw [UInt32.toNat_and, hbits, Nat.and_two_pow_sub_one_eq_mod]
  have hpos : 0 < 2 ^ bits := Nat.two_pow_pos bits
  have hlt := Nat.mod_lt n.toNat hpos
  rw [UInt32.le_iff_toNat_le, ← UInt32.toNat_inj, UInt32.le_iff_toNat_le, hand, hbits]
  refine ⟨by omega, fun h => by omega, fun h => Nat.mod_eq_of_lt (by omega)⟩

/-- What the filter of a `canRead` asks of a frame. -/
theorem matchesFilter_iff (hvalid : canId ≤ maxCanId isExtended) :
    matchesFilter (some canId) isExtended frame = true ↔
      frame.id &&& maxCanId isExtended = canId ∧
        (isExtended = true → frame.isExtended = true) := by
  have hbits : canId &&& maxCanId isExtended = canId := (and_maxCanId canId).2.mpr hvalid
  cases isExtended with
  | true =>
      have hmask : (0x1FFFFFFF : UInt32) = maxCanId true := rfl
      simp only [matchesFilter, nodeFilter, Option.map_some, CanFilter.extendedFrames,
        CanFilter.matchesFrame, hmask, hbits, UInt32.and_self]
      cases frame.isExtended <;> simp [hbits]
  | false =>
      have hmask : (0x7FF : UInt32) = maxCanId false := rfl
      simp [matchesFilter, nodeFilter, CanFilter.standard, CanFilter.matchesFrame, hmask, hbits]

theorem mem_matchedSignals_iff {byteOffset byteLength : UInt8} {dataType : DataType}
    {byteOrder : ByteOrder} {source : SignalSourceSnapshot}
    (hsource : source = .canFrame canId isExtended byteOffset byteLength dataType byteOrder) :
    source ∈ matchedSignals [source] frame ↔
      frame.id = canId ∧ frame.isExtended = isExtended := by
  subst hsource
  simp [matchedSignals]

theorem awaitFrame_eq_ok : awaitFrame canId isExtended [.ok (some frame)] = .ok frame ↔
    frame.id = canId ∧ frame.isExtended = isExtended := by
  rw [awaitFrame]
  split
  case isTrue h => exact iff_of_true rfl h
  case isFalse h => exact iff_of_false (fun heq => nomatch heq) h

/-- A frame that looks like one of the target is one of the target, or is taken for it. -/
theorem takenForTarget_iff : TakenForTarget canId isExtended frame ↔
    (frame.id &&& maxCanId isExtended = canId ∧ (isExtended = true → frame.isExtended = true)) ∧
      ¬ (frame.id = canId ∧ frame.isExtended = isExtended) := by
  constructor
  · intro ⟨hbits, hkind, hother⟩
    refine ⟨⟨hbits, hkind⟩, fun ⟨hid, hextended⟩ => ?_⟩
    rcases hother with hbeyond | ⟨hstandard, hframe⟩
    · have hle := (and_maxCanId frame.id).2.mp (hbits.trans hid.symm)
      exact absurd hbeyond (UInt32.not_lt.mpr hle)
    · rw [hframe, hstandard] at hextended
      cases hextended
  · intro ⟨⟨hbits, hkind⟩, hno⟩
    refine ⟨hbits, hkind, or_iff_not_imp_left.mpr fun hwithin => ?_⟩
    have hid := ((and_maxCanId frame.id).2.mpr (UInt32.not_lt.mp hwithin)).symm.trans hbits
    cases hextended : isExtended with
    | true => exact absurd ⟨hid, (hkind hextended).trans hextended.symm⟩ hno
    | false =>
        refine ⟨rfl, ?_⟩
        cases hframe : frame.isExtended with
        | true => rfl
        | false => exact absurd ⟨hid, hframe.trans hextended.symm⟩ hno

/-- With a valid identifier the three nodes select the same frames, except for those that the filter
takes for frames of the target. -/
theorem selectsAlike_iff (canId : UInt32) (isExtended : Bool) (frame : CanFrame)
    (hvalid : validateCanId canId isExtended = .ok ()) :
    SelectsAlike canId isExtended frame ↔ ¬ TakenForTarget canId isExtended frame := by
  have hmatches := @matchesFilter_iff canId isExtended frame (validateCanId_eq_ok.mp hvalid)
  have hexact : (matchesFilter (some canId) isExtended frame = true ↔
      frame.id = canId ∧ frame.isExtended = isExtended) ↔
        ¬ TakenForTarget canId isExtended frame := by
    rw [hmatches, takenForTarget_iff, not_and_not_right]
    refine ⟨Iff.mp, fun h => ⟨h, ?_⟩⟩
    rintro ⟨rfl, rfl⟩
    have hown := validateCanId_eq_ok.mp hvalid
    exact ⟨(and_maxCanId frame.id).2.mpr hown, fun h => h⟩
  constructor
  · exact fun h => hexact.mp h.canRead
  · intro h
    have hcanRead := hexact.mpr h
    exact ⟨hcanRead, fun _ _ _ _ => (mem_matchedSignals_iff rfl).trans hcanRead.symm,
      awaitFrame_eq_ok.trans hcanRead.symm⟩

end Select

/-- A standard frame with the identifier is selected by all three nodes. -/
theorem standard_frame_selected :
    SelectsAlike 0x123 false ⟨0x123, [], 0, false, false, false, none⟩ :=
  (selectsAlike_iff 0x123 false _ rfl).mpr fun h => absurd h.other (by decide)

/-- An extended frame whose low bits are the standard identifier `0x123` passes the filter. -/
theorem extended_frame_selected :
    ¬ SelectsAlike 0x123 false ⟨0x18FF1123, [], 0, true, false, false, none⟩ := by
  intro h
  exact absurd (h.canRead.mp (by decide)) (by decide)

end Nazh
