import Nazh.Desktop.DeviceJson
import Nazh.Desktop.Rollback

/-!
# Patching a field of a device

A field of a stored device is named by a JSON Pointer and given a new value as a text. The command
goes by the JSON of the device: it replaces what is under the pointer and reads the device again. An
optional field that is none is not in the JSON, and which type the text is of is told by the text,
not by the field.
-/

namespace Nazh.DeviceAsset

open Lib

/-! ## The command -/

/-- `parse::<f64>`, by bits. -/
structure FloatParser where
  parse : String → Option UInt64
  words : ∀ word ∈ ["null", "true", "false"], parse word = none

section Command

variable (floats : FloatParser)

/-- `parse_patch_value`. -/
def parsePatchValue (raw : String) : Value :=
  if raw = "null" then .null
  else if raw = "true" then .bool true
  else if raw = "false" then .bool false
  else match Text.parseSigned 64 raw with
    | .ok n => .number (.ofInt n)
    | .error _ => match (floats.parse raw).filter isFinite64 with
      | some bits => .number (.float bits)
      | none => .string raw

/-- The text is taken for something else than a text. -/
def looksTyped (raw : String) : Bool :=
  raw == "null" || raw == "true" || raw == "false" || (Text.parseSigned 64 raw).isOk ||
    ((floats.parse raw).filter isFinite64).isSome

/-- A token with its escapes replaced. -/
def unescapeToken : List Char → List Char
  | '~' :: '1' :: rest => '/' :: unescapeToken rest
  | '~' :: '0' :: rest => '~' :: unescapeToken rest
  | c :: rest => c :: unescapeToken rest
  | [] => []

/-- The tokens of a JSON Pointer. -/
def pointerTokens (pointer : String) : Option (List String) :=
  match pointer.toList with
  | [] => some []
  | '/' :: rest => some ((rest.splitOn '/').map fun token => String.ofList (unescapeToken token))
  | _ => none

/-- The alarms without their actions, which are what a text may end with. -/
def DeviceSpec.unended (spec : DeviceSpec) : DeviceSpec :=
  { spec with alarms := spec.alarms.map fun alarm => { alarm with action := none } }

/-- `serde_yaml` for devices, and the texts of the errors of `serde_json`. A text without the white
space around it is read as the same device, or as one with another action where there was one, or it
is not read. -/
structure DeviceYaml where
  toString : DeviceSpec → Except String String
  fromStr : String → Except String DeviceSpec
  invalid : Value → String
  unended : ∀ {spec text read}, toString spec = .ok text → fromStr (Text.trim text) = .ok read →
    read.unended = spec.unended
  actions : ∀ {spec text read}, toString spec = .ok text → fromStr (Text.trim text) = .ok read →
    ∀ (i : ℕ) (alarm : AlarmSpec), spec.alarms[i]? = some alarm → alarm.action = none →
      read.alarms[i]? = some alarm

variable (yaml : DeviceYaml) {fs : FileSystem}

/-- `patch_device_field`. Files are read and written without errors. -/
def patchDeviceField (host : SnapshotHost) (folder : AssetFolder fs)
    (assetId jsonPath value : String) (snapshotLabel : Option String) (createdAt : String) :
    AssetFolder fs × Except String Unit :=
  match folder.latest.read (latestName .device assetId) with
  | none => (folder, .error s!"设备资产 `{assetId}` 不存在")
  | some yamlText => match yaml.fromStr yamlText with
    | .error e => (folder, .error s!"设备 DSL 解析失败: {e}")
    | .ok spec =>
        let patched := (pointerTokens jsonPath).bind fun tokens =>
          Value.modify (fun _ => some (parsePatchValue floats value)) tokens
            (deviceCodec.encode spec)
        match patched with
        | none => (folder, .error s!"路径 `{jsonPath}` 不存在于设备规格中")
        | some specValue => match deviceCodec.decode specValue with
          | none => (folder, .error s!"修改后的设备规格不合法: {yaml.invalid specValue}")
          | some patchedSpec => match yaml.toString patchedSpec with
            | .error e => (folder, .error s!"序列化设备 DSL 失败: {e}")
            | .ok newYaml =>
                let version := nextDeviceAssetVersion folder assetId
                let folder := writeDeviceAssetYaml folder assetId version (Text.trim newYaml)
                (appendDeviceSnapshot host folder assetId
                  ⟨version, snapshotLabel.getD s!"编辑 {jsonPath}", "", .edit, createdAt⟩, .ok ())

/-- The device that is stored. -/
def storedSpec (folder : AssetFolder fs) (assetId : String) : Option DeviceSpec :=
  (folder.latest.read (latestName .device assetId)).bind fun text => (yaml.fromStr text).toOption

end Command

/-! ## Values as texts -/

/-- How a value of a field is written as a text, and the texts that are read as this value. -/
structure Leaf (floats : FloatParser) {β : Type} (c : Codec β) where
  writes : String → β → Prop
  reads : String → β → Prop
  law : ∀ raw v, writes raw v → (c.decode (parsePatchValue floats raw) = some v ↔ reads raw v)

section Leaves

variable {floats : FloatParser} {raw : String}

/-- A text is read as itself if it does not look like anything else. -/
theorem parsePatchValue_eq (floats : FloatParser) (raw : String) :
    (looksTyped floats raw = false ∧ parsePatchValue floats raw = .string raw) ∨
    (looksTyped floats raw = true ∧ (parsePatchValue floats raw).asStr = none) := by
  rw [parsePatchValue, looksTyped]
  by_cases hnull : raw = "null"
  · exact .inr ⟨by simp [hnull], by rw [if_pos hnull]; rfl⟩
  by_cases htrue : raw = "true"
  · exact .inr ⟨by simp [htrue], by rw [if_neg hnull, if_pos htrue]; rfl⟩
  by_cases hfalse : raw = "false"
  · exact .inr ⟨by simp [hfalse], by rw [if_neg hnull, if_neg htrue, if_pos hfalse]; rfl⟩
  rw [if_neg hnull, if_neg htrue, if_neg hfalse]
  cases hint : Text.parseSigned 64 raw with
  | ok n => exact .inr ⟨by simp [Except.isOk, Except.toBool], rfl⟩
  | error e =>
      cases hfloat : (floats.parse raw).filter isFinite64 with
      | some bits => exact .inr ⟨by simp, rfl⟩
      | none => exact .inl ⟨by simp [hnull, htrue, hfalse, Except.isOk, Except.toBool], rfl⟩

theorem asStr_parsePatchValue : (parsePatchValue floats raw).asStr =
    if looksTyped floats raw = false then some raw else none := by
  rcases parsePatchValue_eq floats raw with ⟨hlooks, hvalue⟩ | ⟨hlooks, hvalue⟩
  · rw [hvalue, if_pos hlooks]
    rfl
  · rw [hvalue, if_neg (by simp [hlooks])]

theorem parsePatchValue_eq_null : parsePatchValue floats raw = .null ↔ raw = "null" := by
  rw [parsePatchValue]
  split
  · exact iff_of_true rfl ‹_›
  · refine iff_of_false (fun h => ?_) ‹_›
    repeat' split at h
    all_goals cases h

/-- What is read is an array or an object. -/
def IsCompound {β : Type} (c : Codec β) : Prop :=
  ∀ j a, c.decode j = some a → (∃ items, j = .array items) ∨ ∃ fields, j = .object fields

/-- No text is read as an array or an object. -/
theorem decode_parsePatchValue {β : Type} {c : Codec β} (hc : IsCompound c) :
    c.decode (parsePatchValue floats raw) = none := by
  cases hread : c.decode (parsePatchValue floats raw) with
  | none => rfl
  | some a =>
      have hcases := hc _ a hread
      rw [parsePatchValue] at hcases
      repeat' split at hcases
      all_goals rcases hcases with ⟨_, h⟩ | ⟨_, h⟩ <;> cases h

theorem decode_option_eq_some {β : Type} {c : Codec β} {hc : c.Solid} {j : Value} {a : β} :
    (c.option hc).decode j = some (some a) ↔ c.decode j = some a := by
  by_cases hj : j = .null
  · rw [hj, hc.decode_null]
    exact iff_of_false nofun nofun
  · rw [c.decode_option_of_ne hc hj]
    constructor
    · intro h
      obtain ⟨b, hb, heq⟩ := Option.map_eq_some_iff.mp h
      rw [hb, Option.some.inj heq]
    · intro h
      rw [h]
      rfl

/-- A decimal number that fits the type is read by it. -/
theorem parseSigned_of_isDecimal {bits n : ℕ} (hraw : Text.IsDecimal raw n)
    (hn : n < 2 ^ (bits - 1)) : Text.parseSigned bits raw = .ok n := by
  obtain ⟨ds, hne, hdigits, hvalue, htext⟩ := hraw
  have hread : Text.accumulate (2 ^ (bits - 1) - 1) .posOverflow 0 ds = .ok n :=
    (Text.accumulate_eq_ok (Nat.zero_le _)).mpr ⟨hdigits, hvalue, by omega⟩
  have hfirst : ∀ c cs, ds = c :: cs → c ≠ '+' ∧ c ≠ '-' := by
    intro c cs hcs
    have hc := hdigits c (hcs ▸ List.mem_cons_self)
    constructor <;> rintro rfl <;> exact absurd hc (by decide)
  rcases htext with htext | htext
  · rw [Text.parseSigned, htext]
    split
    case h_1 => exact absurd rfl hne
    case h_2 => exact absurd rfl (hfirst _ _ rfl).1
    case h_3 => exact absurd rfl (hfirst _ _ rfl).2
    case h_4 => exact absurd rfl (hfirst _ _ rfl).1
    case h_5 => exact absurd rfl (hfirst _ _ rfl).2
    case h_6 =>
      rw [hread]
      rfl
  · rw [Text.parseSigned, htext]
    split
    case h_1 heq => cases heq
    case h_2 heq => exact absurd (List.cons.inj heq).2 hne
    case h_3 heq => cases heq
    case h_4 cs _ heq =>
      rw [← (List.cons.inj heq).2, hread]
      rfl
    case h_5 heq => cases heq
    case h_6 hplus _ => exact absurd rfl (hplus _)

/-- A text that is a number is read as this number. -/
theorem parsePatchValue_of_isDecimal {n : ℕ} (hraw : Text.IsDecimal raw n) (hn : n < 2 ^ 63) :
    parsePatchValue floats raw = .number (.ofNat n) := by
  have hread : Text.parseSigned 64 raw = .ok n := parseSigned_of_isDecimal hraw hn
  have hword : ∀ word, Text.parseSigned 64 word = .error .invalidDigit → raw ≠ word := by
    rintro word hword rfl
    rw [hread] at hword
    cases hword
  rw [parsePatchValue, if_neg (hword _ (by decide)), if_neg (hword _ (by decide)),
    if_neg (hword _ (by decide)), hread]
  show Value.number (.ofInt n) = _
  rw [Number.ofInt, if_neg (by omega)]
  rfl

theorem asF64_ofInt {i : ℤ} (hi : -2 ^ (64 - 1) ≤ i ∧ i < 2 ^ (64 - 1)) :
    (Number.ofInt i).asF64 = roundInt64 i := by
  rw [Number.ofInt]
  split
  · rfl
  · rename_i hneg
    have hnat : (UInt64.ofNat i.toNat).toNat = i.natAbs := by
      rw [UInt64.toNat_ofNat', Nat.mod_eq_of_lt (by omega)]
      omega
    rw [Number.asF64, hnat, roundInt64, if_neg hneg]

namespace Leaf

def text : Leaf floats .text where
  writes raw v := v = raw
  reads raw _ := looksTyped floats raw = false
  law raw v h := by
    subst h
    rw [show Codec.text.decode _ = _ from asStr_parsePatchValue]
    split
    · exact iff_of_true rfl ‹_›
    · exact iff_of_false nofun ‹_›

def optionalText : Leaf floats (Codec.text.option Codec.text_solid) where
  writes raw v := v = some raw
  reads raw _ := looksTyped floats raw = false
  law raw v h := by
    subst h
    rw [decode_option_eq_some]
    exact text.law raw raw rfl

def bool : Leaf floats .bool where
  writes raw v := raw = if v then "true" else "false"
  reads _ _ := True
  law raw v h := by
    subst h
    cases v <;> exact iff_of_true rfl trivial

/-- An unsigned integer in decimal digits. -/
def unsigned {β : Type} {size : ℕ} {hsize : size ≤ 2 ^ 64} {toNat : β → ℕ} {ofNat : ℕ → β}
    {hlt : ∀ a, toNat a < size} {hof : ∀ a, ofNat (toNat a) = a} (hfits : size ≤ 2 ^ 63) :
    Leaf floats (.unsigned size hsize toNat ofNat hlt hof) where
  writes raw v := Text.IsDecimal raw (toNat v)
  reads _ _ := True
  law raw v h := by
    rw [parsePatchValue_of_isDecimal h (lt_of_lt_of_le (hlt v) hfits)]
    refine iff_of_true ?_ trivial
    rw [Codec.unsigned]
    simp only [Codec.toUnsigned_ofNat hsize (hlt v), Option.map_some, hof]

/-- A text of the type, or null for none. -/
def optional {β : Type} {c : Codec β} (hc : c.Solid) (leaf : Leaf floats c) :
    Leaf floats (c.option hc) where
  writes raw v := (raw = "null" ∧ v = none) ∨ ∃ n, v = some n ∧ leaf.writes raw n
  reads raw v := ∀ n, v = some n → leaf.reads raw n
  law raw v h := by
    rcases h with ⟨rfl, rfl⟩ | ⟨n, rfl, hn⟩
    · exact iff_of_true rfl nofun
    · rw [decode_option_eq_some, leaf.law raw n hn]
      exact ⟨fun h m hm => Option.some.inj hm ▸ h, fun h => h n rfl⟩

/-- A text that is both a number and an integer is read as the integer. -/
def number : Leaf floats .f64 where
  writes raw v := floats.parse raw = some v
  reads raw v := isFinite64 v = true ∧ ∀ i, Text.parseSigned 64 raw = .ok i → roundInt64 i = v
  law raw v h := by
    have hword : ∀ word ∈ ["null", "true", "false"], raw ≠ word := by
      rintro word hword rfl
      rw [floats.words raw hword] at h
      cases h
    rw [parsePatchValue, if_neg (hword _ (by decide)), if_neg (hword _ (by decide)),
      if_neg (hword _ (by decide))]
    cases hint : Text.parseSigned 64 raw with
    | ok i =>
        have hrange := Text.parseSigned_range hint
        have hread : Codec.f64.decode (.number (.ofInt i)) =
            (some (roundInt64 i)).filter isFinite64 := by
          rw [← asF64_ofInt hrange]
          rfl
        show Codec.f64.decode (.number (.ofInt i)) = some v ↔ _
        rw [hread, Option.filter_eq_some_iff]
        constructor
        · rintro ⟨heq, hfinite⟩
          refine ⟨hfinite, fun j hj => ?_⟩
          cases hj
          exact Option.some.inj heq
        · rintro ⟨hfinite, hreads⟩
          rw [hreads i rfl]
          exact ⟨rfl, hfinite⟩
    | error e =>
        rw [h, Option.filter_some]
        cases hfinite : isFinite64 v with
        | true =>
            exact iff_of_true (Option.filter_eq_some_iff.mpr ⟨rfl, hfinite⟩) ⟨rfl, nofun⟩
        | false => exact iff_of_false nofun nofun

/-- A variant of an enumeration, by its name. -/
def names {β : Type} {name : β → String} {all : List β} {hall : ∀ a, a ∈ all}
    {hname : ∀ a ∈ all, ∀ b ∈ all, name a = name b → a = b} :
    Leaf floats (.names name all hall hname) where
  writes raw v := raw = name v
  reads raw _ := looksTyped floats raw = false
  law raw v h := by
    subst h
    show (parsePatchValue floats (name v)).asStr.bind _ = some v ↔ _
    rw [asStr_parsePatchValue]
    split
    · exact iff_of_true (Codec.find_name hall hname v) ‹_›
    · exact iff_of_false nofun ‹_›

/-- What is not written as a text, whatever the text. -/
def whole {β : Type} {c : Codec β} (hc : IsCompound c) : Leaf floats c where
  writes _ _ := True
  reads _ _ := False
  law raw v _ := by
    rw [decode_parsePatchValue hc]
    exact iff_of_false nofun id

/-- The same, if it is optional: null is none. -/
def optionalWhole {β : Type} {c : Codec β} (hc : c.Solid) (hcompound : IsCompound c) :
    Leaf floats (c.option hc) where
  writes _ _ := True
  reads raw v := raw = "null" ∧ v = none
  law raw v _ := by
    by_cases hnull : raw = "null"
    · rw [parsePatchValue_eq_null.mpr hnull]
      show some none = some v ↔ _
      simp [hnull, eq_comm]
    · rw [c.decode_option_of_ne hc (mt parsePatchValue_eq_null.mp hnull),
        decode_parsePatchValue hcompound]
      exact iff_of_false nofun fun h => hnull h.1

end Leaf

end Leaves

/-! ## Fields -/

/-- A field of a type: where it is found, and how its values are written as texts. -/
structure Spot (floats : FloatParser) {α : Type} (c : Codec α) where
  {β : Type}
  {leafCodec : Codec β}
  leaf : Leaf floats leafCodec
  place : Place c leafCodec

namespace Spot

variable {floats : FloatParser} {α γ : Type} {c : Codec α} {mid : Codec γ}

/-- A field within a part. -/
def within (q : Spot floats mid) (p : Place c mid) : Spot floats c := ⟨q.leaf, p.comp q.place⟩

/-- A field within a part that may be none. -/
def withinOption (q : Spot floats mid) {hmid : mid.Solid} (p : Place c (mid.option hmid))
    (hq : q.place.path ≠ []) : Spot floats c := ⟨q.leaf, p.through q.place hq⟩

end Spot

inductive ConnectionField
  | connectionType
  | id
  | unit

inductive IdentityField
  | productCode
  | revisionNo
  | slaveAddress

/-- A field of a source, and the variant that it is a field of. -/
inductive SourceField
  | register | access | registerDataType | bit
  | topic
  | command
  | canId | isExtended | frameOffset | byteLength | frameDataType | byteOrder
  | slaveAddress | pdoIndex | entryIndex | subIndex | bitLen | pdoOffset | pdoDataType | pdoName
  | entryName

inductive SignalField
  | id
  | signalType
  | unit
  | range
  | rangeMin
  | rangeMax
  | source
  | sourceField (field : SourceField)
  | scale

inductive AlarmField
  | id
  | condition
  | severity
  | action

/-- The fields that a device declares, whole parts included. -/
inductive DeviceField
  | id
  | deviceType
  | manufacturer
  | model
  | connection
  | connectionField (field : ConnectionField)
  | networkGroup
  | ethercatIdentity
  | identityField (field : IdentityField)
  | signals
  | signal (i : ℕ)
  | signalField (i : ℕ) (field : SignalField)
  | alarms
  | alarm (i : ℕ)
  | alarmField (i : ℕ) (field : AlarmField)

section Fields

variable (floats : FloatParser)

def u8Leaf : Leaf floats .u8 := .unsigned (by decide)

def u16Leaf : Leaf floats .u16 := .unsigned (by decide)

def u32Leaf : Leaf floats .u32 := .unsigned (by decide)

def ConnectionField.spot : ConnectionField → Spot floats connectionCodec
  | connectionType => ⟨.text, .member (.iso (.fst (.required "type" .text)))⟩
  | id => ⟨.text, .member (.iso (.snd (.fst (.required "id" .text))))⟩
  | unit => ⟨.optional Codec.u8_solid (u8Leaf floats),
      .member (.iso (.snd (.snd (.optional "unit" .u8 Codec.u8_solid))))⟩

def IdentityField.spot : IdentityField → Spot floats identityCodec
  | productCode => ⟨.optional Codec.u32_solid (u32Leaf floats),
      .member (.iso (.fst (.optional "product_code" .u32 Codec.u32_solid)))⟩
  | revisionNo => ⟨.optional Codec.u32_solid (u32Leaf floats),
      .member (.iso (.snd (.fst (.optional "revision_no" .u32 Codec.u32_solid))))⟩
  | slaveAddress => ⟨.optional Codec.u16_solid (u16Leaf floats),
      .member (.iso (.snd (.snd (.optional "slave_address" .u16 Codec.u16_solid))))⟩

section Variants

variable {β : Type} {leaf : Codec β}

def registerPlace (m : registerShape.Member leaf) (h : m.name ≠ "type") : Place sourceCodec leaf :=
  .member (.iso (.inl m h))

def topicPlace (m : topicShape.Member leaf) (h : m.name ≠ "type") : Place sourceCodec leaf :=
  .member (.iso (.inr (.inl m h) h))

def serialCommandPlace (m : serialCommandShape.Member leaf) (h : m.name ≠ "type") :
    Place sourceCodec leaf :=
  .member (.iso (.inr (.inr (.inl m h) h) h))

def canFramePlace (m : canFrameShape.Member leaf) (h : m.name ≠ "type") : Place sourceCodec leaf :=
  .member (.iso (.inr (.inr (.inr (.inl m h) h) h) h))

def ethercatPdoPlace (m : ethercatPdoShape.Member leaf) (h : m.name ≠ "type") :
    Place sourceCodec leaf :=
  .member (.iso (.inr (.inr (.inr (.inr m h) h) h) h))

end Variants

def SourceField.spot : SourceField → Spot floats sourceCodec
  | register => ⟨u16Leaf floats, registerPlace
      (.snd (.fst (.required "register" .u16))) (by decide)⟩
  | access => ⟨.names, registerPlace
      (.snd (.snd (.fst (.defaulted "access" accessModeCodec .read access_default)))) (by decide)⟩
  | registerDataType => ⟨.names, registerPlace
      (.snd (.snd (.snd (.fst (.required "data_type" dataTypeCodec))))) (by decide)⟩
  | bit => ⟨.optional Codec.u8_solid (u8Leaf floats), registerPlace
      (.snd (.snd (.snd (.snd (.optional "bit" .u8 Codec.u8_solid))))) (by decide)⟩
  | topic => ⟨.text, topicPlace (.snd (.required "topic" .text)) (by decide)⟩
  | command => ⟨.text, serialCommandPlace (.snd (.required "command" .text)) (by decide)⟩
  | canId => ⟨u32Leaf floats, canFramePlace (.snd (.fst (.required "can_id" .u32))) (by decide)⟩
  | isExtended => ⟨.bool, canFramePlace
      (.snd (.snd (.fst (.defaulted "is_extended" .bool false isExtended_default)))) (by decide)⟩
  | frameOffset => ⟨u8Leaf floats, canFramePlace
      (.snd (.snd (.snd (.fst (.required "byte_offset" .u8))))) (by decide)⟩
  | byteLength => ⟨u8Leaf floats, canFramePlace
      (.snd (.snd (.snd (.snd (.fst (.required "byte_length" .u8)))))) (by decide)⟩
  | frameDataType => ⟨.names, canFramePlace
      (.snd (.snd (.snd (.snd (.snd (.fst (.required "data_type" dataTypeCodec))))))) (by decide)⟩
  | byteOrder => ⟨.names, canFramePlace
      (.snd (.snd (.snd (.snd (.snd (.snd
        (.defaulted "byte_order" byteOrderCodec .bigEndian byteOrder_default))))))) (by decide)⟩
  | slaveAddress => ⟨.optional Codec.u16_solid (u16Leaf floats), ethercatPdoPlace
      (.snd (.iso (.fst (.optional "slave_address" .u16 Codec.u16_solid)))) (by decide)⟩
  | pdoIndex => ⟨u16Leaf floats, ethercatPdoPlace
      (.snd (.iso (.snd (.fst (.required "pdo_index" .u16))))) (by decide)⟩
  | entryIndex => ⟨u16Leaf floats, ethercatPdoPlace
      (.snd (.iso (.snd (.snd (.fst (.required "entry_index" .u16)))))) (by decide)⟩
  | subIndex => ⟨u8Leaf floats, ethercatPdoPlace
      (.snd (.iso (.snd (.snd (.snd (.fst (.required "sub_index" .u8))))))) (by decide)⟩
  | bitLen => ⟨u16Leaf floats, ethercatPdoPlace
      (.snd (.iso (.snd (.snd (.snd (.snd (.fst (.required "bit_len" .u16)))))))) (by decide)⟩
  | pdoOffset => ⟨.optional Codec.u16_solid (u16Leaf floats), ethercatPdoPlace
      (.snd (.iso (.snd (.snd (.snd (.snd (.snd (.fst
        (.optional "byte_offset" .u16 Codec.u16_solid))))))))) (by decide)⟩
  | pdoDataType => ⟨.optionalText, ethercatPdoPlace
      (.snd (.iso (.snd (.snd (.snd (.snd (.snd (.snd (.fst
        (.optional "data_type" .text Codec.text_solid)))))))))) (by decide)⟩
  | pdoName => ⟨.optionalText, ethercatPdoPlace
      (.snd (.iso (.snd (.snd (.snd (.snd (.snd (.snd (.snd (.fst
        (.optional "pdo_name" .text Codec.text_solid))))))))))) (by decide)⟩
  | entryName => ⟨.optionalText, ethercatPdoPlace
      (.snd (.iso (.snd (.snd (.snd (.snd (.snd (.snd (.snd (.snd
        (.optional "entry_name" .text Codec.text_solid))))))))))) (by decide)⟩

theorem isCompound_record {α : Type} (s : Shape α) : IsCompound (Codec.record s) := by
  intro j a h
  cases j with
  | object fields => exact .inr ⟨fields, rfl⟩
  | _ => cases h

theorem isCompound_list {α : Type} (c : Codec α) : IsCompound c.list := by
  intro j a h
  cases j with
  | array items => exact .inl ⟨items, rfl⟩
  | _ => cases h

theorem isCompound_range : IsCompound rangeCodec := by
  intro j a h
  cases j with
  | array items => exact .inl ⟨items, rfl⟩
  | _ => cases h

def rangePlace : Place signalCodec (rangeCodec.option rangeCodec_solid) :=
  .member (.iso (.snd (.snd (.snd (.fst (.optional "range" rangeCodec rangeCodec_solid))))))

def sourcePlace : Place signalCodec sourceCodec :=
  .member (.iso (.snd (.snd (.snd (.snd (.fst (.required "source" sourceCodec)))))))

def SignalField.spot : SignalField → Spot floats signalCodec
  | id => ⟨.text, .member (.iso (.fst (.required "id" .text)))⟩
  | signalType => ⟨.names, .member (.iso (.snd (.fst (.required "signal_type" signalTypeCodec))))⟩
  | unit => ⟨.optionalText,
      .member (.iso (.snd (.snd (.fst (.optional "unit" .text Codec.text_solid)))))⟩
  | range => ⟨.optionalWhole rangeCodec_solid isCompound_range, rangePlace⟩
  | rangeMin => .withinOption ⟨.number, .refine (.iso (.first .f64 .f64)) rangeIsOrdered⟩
      rangePlace nofun
  | rangeMax => .withinOption ⟨.number, .refine (.iso (.second .f64 .f64)) rangeIsOrdered⟩
      rangePlace nofun
  | source => ⟨.whole (isCompound_record _), sourcePlace⟩
  | sourceField field => (field.spot floats).within sourcePlace
  | scale => ⟨.optionalText,
      .member (.iso (.snd (.snd (.snd (.snd (.snd (.optional "scale" .text Codec.text_solid)))))))⟩

def AlarmField.spot : AlarmField → Spot floats alarmCodec
  | id => ⟨.text, .member (.iso (.fst (.required "id" .text)))⟩
  | condition => ⟨.text, .member (.iso (.snd (.fst (.required "condition" .text))))⟩
  | severity => ⟨.names, .member (.iso (.snd (.snd (.fst (.required "severity" severityCodec)))))⟩
  | action => ⟨.optionalText,
      .member (.iso (.snd (.snd (.snd (.optional "action" .text Codec.text_solid)))))⟩

def connectionPlace : Place deviceCodec (connectionCodec.option connectionCodec_solid) :=
  .member (.iso (.snd (.snd (.snd (.snd (.fst
    (.optional "connection" connectionCodec connectionCodec_solid)))))))

def identityPlace : Place deviceCodec (identityCodec.option identityCodec_solid) :=
  .member (.iso (.snd (.snd (.snd (.snd (.snd (.snd (.fst
    (.optional "ethercat_identity" identityCodec identityCodec_solid)))))))))

def signalsPlace : Place deviceCodec signalCodec.list :=
  .member (.iso (.snd (.snd (.snd (.snd (.snd (.snd (.snd (.fst
    (.defaulted "signals" signalCodec.list [] signalCodec.default_nil))))))))))

def alarmsPlace : Place deviceCodec alarmCodec.list :=
  .member (.iso (.snd (.snd (.snd (.snd (.snd (.snd (.snd (.snd
    (.defaulted "alarms" alarmCodec.list [] alarmCodec.default_nil))))))))))

theorem ConnectionField.path_ne (field : ConnectionField) :
    (field.spot floats).place.path ≠ [] := by
  cases field <;> nofun

theorem IdentityField.path_ne (field : IdentityField) : (field.spot floats).place.path ≠ [] := by
  cases field <;> nofun

def DeviceField.spot : DeviceField → Spot floats deviceCodec
  | id => ⟨.text, .member (.iso (.fst (.required "id" .text)))⟩
  | deviceType => ⟨.text, .member (.iso (.snd (.fst (.required "type" .text))))⟩
  | manufacturer => ⟨.optionalText,
      .member (.iso (.snd (.snd (.fst (.optional "manufacturer" .text Codec.text_solid)))))⟩
  | model => ⟨.optionalText,
      .member (.iso (.snd (.snd (.snd (.fst (.optional "model" .text Codec.text_solid))))))⟩
  | connection => ⟨.optionalWhole connectionCodec_solid (isCompound_record _), connectionPlace⟩
  | connectionField field => (field.spot floats).withinOption connectionPlace (field.path_ne floats)
  | networkGroup => ⟨.optionalText, .member (.iso (.snd (.snd (.snd (.snd (.snd (.fst
      (.optional "network_group" .text Codec.text_solid))))))))⟩
  | ethercatIdentity => ⟨.optionalWhole identityCodec_solid (isCompound_record _), identityPlace⟩
  | identityField field => (field.spot floats).withinOption identityPlace (field.path_ne floats)
  | signals => ⟨.whole (isCompound_list _), signalsPlace⟩
  | signal i => ⟨.whole (isCompound_record _), signalsPlace.comp (.item signalCodec i)⟩
  | signalField i field => (field.spot floats).within (signalsPlace.comp (.item signalCodec i))
  | alarms => ⟨.whole (isCompound_list _), alarmsPlace⟩
  | alarm i => ⟨.whole (isCompound_record _), alarmsPlace.comp (.item alarmCodec i)⟩
  | alarmField i field => (field.spot floats).within (alarmsPlace.comp (.item alarmCodec i))

end Fields

/-! ## The pointer of a field -/

/-- The JSON Pointer with the tokens, none of which needs an escape. -/
def pointerOf : List String → String
  | [] => ""
  | path => String.ofList ('/' :: ['/'].intercalate (path.map String.toList))

/-- Nothing in the token needs an escape. -/
def IsPlainToken (token : String) : Prop := '/' ∉ token.toList ∧ '~' ∉ token.toList

instance (token : String) : Decidable (IsPlainToken token) := inferInstanceAs (Decidable (_ ∧ _))

theorem unescapeToken_of_notMem {token : List Char} (h : '~' ∉ token) :
    unescapeToken token = token := by
  induction token with
  | nil => rfl
  | cons c token ih =>
      obtain ⟨hc, htoken⟩ := not_or.mp (mt List.mem_cons.mpr h)
      rw [unescapeToken.eq_3, ih htoken]
      · rintro rest rfl
        exact absurd rfl hc
      · rintro rest rfl
        exact absurd rfl hc

theorem pointerTokens_pointerOf {path : List String} (h : ∀ token ∈ path, IsPlainToken token) :
    pointerTokens (pointerOf path) = some path := by
  cases path with
  | nil => rfl
  | cons token rest =>
      have hsplit : (['/'].intercalate ((token :: rest).map String.toList)).splitOn '/' =
          (token :: rest).map String.toList := by
        refine List.splitOn_intercalate '/' (fun chars hchars => ?_) (List.cons_ne_nil _ _)
        obtain ⟨token, htoken, rfl⟩ := List.mem_map.mp hchars
        exact (h token htoken).1
      rw [pointerOf, pointerTokens, String.toList_ofList]
      · simp only [hsplit, List.map_map]
        refine congrArg some ((List.map_congr_left fun token htoken => ?_).trans (List.map_id _))
        rw [Function.comp_apply, unescapeToken_of_notMem (h token htoken).2, String.ofList_toList]
        rfl
      · exact List.cons_ne_nil _ _

theorem isPlainToken_toString (i : ℕ) : IsPlainToken (toString i) := by
  have hlist : (toString i).toList = Nat.toDigits 10 i := by
    rw [Nat.toString_eq_ofList_toDigits, String.toList_ofList]
  have hdigit : ∀ c ∈ Nat.toDigits 10 i, c.isDigit = true := fun c hc =>
    Nat.isDigit_of_mem_toDigits (by decide) (by decide) hc
  rw [IsPlainToken, hlist]
  exact ⟨fun h => absurd (hdigit _ h) (by decide), fun h => absurd (hdigit _ h) (by decide)⟩

section Pointers

variable {floats : FloatParser}

theorem isPlainToken_append {p q : List String} (hp : ∀ token ∈ p, IsPlainToken token)
    (hq : ∀ token ∈ q, IsPlainToken token) : ∀ token ∈ p ++ q, IsPlainToken token :=
  List.forall_mem_append.mpr ⟨hp, hq⟩

theorem isPlainToken_item {name : String} (hname : IsPlainToken name) (i : ℕ) :
    ∀ token ∈ [name] ++ [toString i], IsPlainToken token :=
  isPlainToken_append (List.forall_mem_singleton.mpr hname)
    (List.forall_mem_singleton.mpr (isPlainToken_toString i))

/-- What can be computed. -/
theorem isPlainToken_of_all {path : List String} (h : path.all fun token => IsPlainToken token) :
    ∀ token ∈ path, IsPlainToken token := fun token htoken =>
  of_decide_eq_true (List.all_eq_true.mp h token htoken)

theorem SignalField.isPlainToken_path (field : SignalField) :
    ∀ token ∈ (field.spot floats).place.path, IsPlainToken token := by
  cases field with
  | sourceField field => cases field <;> exact isPlainToken_of_all rfl
  | _ => exact isPlainToken_of_all rfl

theorem DeviceField.isPlainToken_path (field : DeviceField) :
    ∀ token ∈ (field.spot floats).place.path, IsPlainToken token := by
  cases field with
  | connectionField field => cases field <;> exact isPlainToken_of_all rfl
  | identityField field => cases field <;> exact isPlainToken_of_all rfl
  | signal i => exact isPlainToken_item (by decide) i
  | signalField i field =>
      exact isPlainToken_append (isPlainToken_item (by decide) i) field.isPlainToken_path
  | alarm i => exact isPlainToken_item (by decide) i
  | alarmField i field =>
      refine isPlainToken_append (isPlainToken_item (by decide) i) ?_
      cases field <;> exact isPlainToken_of_all rfl
  | _ => exact isPlainToken_of_all rfl

end Pointers

/-! ## What a patch does -/

section Patch

variable {floats : FloatParser} {yaml : DeviceYaml} {host : SnapshotHost} {fs : FileSystem}
  {folder : AssetFolder fs} {assetId raw : String} {spec : DeviceSpec}

/-- A patch that is rejected leaves every file as it was. -/
theorem patchDeviceField_rejected {jsonPath value createdAt e : String}
    {snapshotLabel : Option String}
    (h : (patchDeviceField floats yaml host folder assetId jsonPath value snapshotLabel
      createdAt).2 = .error e) :
    (patchDeviceField floats yaml host folder assetId jsonPath value snapshotLabel
      createdAt).1 = folder := by
  rw [patchDeviceField] at h ⊢
  dsimp only at h ⊢
  repeat' split at h
  all_goals first | rfl | cases h

/-- What makes a patch succeed: the text is read as a part, and the device with it can be read and
printed. -/
structure Accepts (yaml : DeviceYaml) (spec : DeviceSpec) (spot : Spot floats deviceCodec)
    (raw : String) (v : spot.β) (text : String) : Prop where
  present : (spot.place.get spec).isSome
  read : spot.leafCodec.decode (parsePatchValue floats raw) = some v
  ranges : rangesKept (spot.place.put spec v) = true
  printed : yaml.toString (spot.place.put spec v) = .ok text

variable {spot : Spot floats deviceCodec}

theorem modify_spot (hdeclared : spot.place.declared spec) (value : Value) :
    (Value.modify (fun _ => some value) spot.place.path (deviceCodec.encode spec)).map
        deviceCodec.decode =
      (spot.place.get spec).map fun _ => (spot.leafCodec.decode value).bind fun v =>
        deviceCodec.decode (deviceCodec.encode (spot.place.put spec v)) := by
  rw [spot.place.law _ spec hdeclared]
  cases spot.place.get spec <;> rfl

theorem stored_eq (h : storedSpec yaml folder assetId = some spec) :
    ∃ text, folder.latest.read (latestName .device assetId) = some text ∧
      yaml.fromStr text = .ok spec := by
  obtain ⟨text, htext, hspec⟩ := Option.bind_eq_some_iff.mp h
  exact ⟨text, htext, toOption_eq_some.mp hspec⟩

theorem storedSpec_written (version : ℤ) (text : String) (snapshot : DeviceSnapshotMeta) :
    storedSpec yaml (appendDeviceSnapshot host (writeDeviceAssetYaml folder assetId version text)
      assetId snapshot) assetId = (yaml.fromStr text).toOption := by
  have hread : (appendDeviceSnapshot host (writeDeviceAssetYaml folder assetId version text)
      assetId snapshot).latest.read (latestName .device assetId) = some text :=
    (Directory.read_write ..).trans ((if_neg (latest_ne_snapshots assetId)).trans
      ((Directory.read_write ..).trans (if_pos rfl)))
  rw [storedSpec, hread]
  rfl

variable {snapshotLabel : Option String} {createdAt : String}

/-- A patch that is accepted keeps the text without the white space around it. -/
theorem Accepts.patch {v : spot.β} {text : String} (h : Accepts yaml spec spot raw v text)
    (hplain : ∀ token ∈ spot.place.path, IsPlainToken token)
    (hstored : storedSpec yaml folder assetId = some spec)
    (hdeclared : spot.place.declared spec) :
    let after := patchDeviceField floats yaml host folder assetId (pointerOf spot.place.path) raw
      snapshotLabel createdAt
    after.2 = .ok () ∧
      storedSpec yaml after.1 assetId = (yaml.fromStr (Text.trim text)).toOption := by
  obtain ⟨yamlText, htext, hspec⟩ := stored_eq hstored
  obtain ⟨found, hfound⟩ := Option.isSome_iff_exists.mp h.present
  have hmodify := modify_spot hdeclared (parsePatchValue floats raw)
  rw [hfound, h.read, Option.map_some, Option.bind_some,
    Codec.decode_encode_of_kept ((kept_device _).trans h.ranges)] at hmodify
  obtain ⟨specValue, hvalue, hdecode⟩ := Option.map_eq_some_iff.mp hmodify
  rw [patchDeviceField]
  simp only [htext, hspec, pointerTokens_pointerOf hplain, Option.bind_some, hvalue, hdecode,
    h.printed]
  exact ⟨trivial, storedSpec_written _ _ _⟩

theorem exists_accepts (hplain : ∀ token ∈ spot.place.path, IsPlainToken token)
    (hstored : storedSpec yaml folder assetId = some spec)
    (hdeclared : spot.place.declared spec)
    (hok : (patchDeviceField floats yaml host folder assetId (pointerOf spot.place.path) raw
      snapshotLabel createdAt).2 = .ok ()) :
    ∃ v text, Accepts yaml spec spot raw v text := by
  obtain ⟨yamlText, htext, hspec⟩ := stored_eq hstored
  have hmodify := modify_spot hdeclared (parsePatchValue floats raw)
  rw [patchDeviceField] at hok
  simp only [htext, hspec, pointerTokens_pointerOf hplain, Option.bind_some] at hok
  cases hvalue : Value.modify (fun _ => some (parsePatchValue floats raw)) spot.place.path
      (deviceCodec.encode spec) with
  | none =>
      rw [hvalue] at hok
      cases hok
  | some specValue =>
      simp only [hvalue] at hok hmodify
      rw [Option.map_some] at hmodify
      obtain ⟨found, hfound, hdecode⟩ := Option.map_eq_some_iff.mp hmodify.symm
      cases hpatched : deviceCodec.decode specValue with
      | none =>
          rw [hpatched] at hok
          cases hok
      | some patched =>
          rw [hpatched] at hdecode
          simp only [hpatched] at hok
          obtain ⟨v, hread, hkept⟩ := Option.bind_eq_some_iff.mp hdecode
          obtain rfl := deviceCodec.sound _ _ hkept
          cases hprinted : yaml.toString (spot.place.put spec v) with
          | error e =>
              rw [hprinted] at hok
              cases hok
          | ok text =>
              refine ⟨v, text, Option.isSome_iff_exists.mpr ⟨found, hfound⟩, hread, ?_, hprinted⟩
              rw [← kept_device]
              exact kept_of_decode hkept

/-! The text tells the part. -/

/-- A place that has nothing to do with the actions. -/
def Aside {β : Type} {leaf : Codec β} (p : Place deviceCodec leaf) : Prop :=
  ∀ spec : DeviceSpec, p.get spec.unended = p.get spec ∧
    ∀ v, (p.put spec v).unended = p.put spec.unended v

section Aside

variable {β γ : Type} {mid : Codec β} {leaf : Codec γ}

theorem Aside.comp {p : Place deviceCodec mid} (h : Aside p) (q : Place mid leaf) :
    Aside (p.comp q) := by
  intro spec
  obtain ⟨hget, hput⟩ := h spec
  simp only [Place.comp, hget, true_and]
  intro v
  cases p.get spec with
  | none => rfl
  | some b => exact hput _

theorem Aside.through {hmid : mid.Solid} {p : Place deviceCodec (mid.option hmid)} (h : Aside p)
    (q : Place mid leaf) (hq : q.path ≠ []) : Aside (p.through q hq) := by
  intro spec
  obtain ⟨hget, hput⟩ := h spec
  simp only [Place.through, hget, true_and]
  intro v
  cases (p.get spec).join with
  | none => rfl
  | some b => exact hput _

/-- Trimming the text does not make another part of one that is aside. -/
theorem Aside.eq {p : Place deviceCodec leaf} (h : Aside p) {v v' : γ} (hget : (p.get spec).isSome)
    (heq : (p.put spec v).unended = (p.put spec v').unended) : v = v' := by
  obtain ⟨hsame, hput⟩ := h spec
  rw [hput, hput] at heq
  exact p.inj spec.unended v v' (hsame ▸ hget) heq

end Aside

theorem aside_connection : Aside connectionPlace := fun _ => ⟨rfl, fun _ => rfl⟩

theorem aside_identity : Aside identityPlace := fun _ => ⟨rfl, fun _ => rfl⟩

theorem aside_signals : Aside signalsPlace := fun _ => ⟨rfl, fun _ => rfl⟩

theorem put_alarmField {i : ℕ} {alarm : AlarmSpec} (hget : spec.alarms[i]? = some alarm)
    (field : AlarmField) (v : (field.spot floats).β) :
    ((DeviceField.alarmField i field).spot floats).place.put spec v =
      { spec with alarms := spec.alarms.set i ((field.spot floats).place.put alarm v) } := by
  show ((spec.alarms[i]?).map _).getD spec = _
  rw [hget]
  rfl

/-- Trimming does not make another part of an alarm either. -/
theorem AlarmField.eq_of_trimmed {i : ℕ} (field : AlarmField) {v v' : (field.spot floats).β}
    {text : String} (hraw : (field.spot floats).leaf.writes raw v)
    (h : Accepts yaml spec ((DeviceField.alarmField i field).spot floats) raw v' text)
    (hback : yaml.fromStr (Text.trim text) =
      .ok (((DeviceField.alarmField i field).spot floats).place.put spec v)) : v = v' := by
  have hpresent : ((spec.alarms[i]?).bind (field.spot floats).place.get).isSome := h.present
  obtain ⟨alarm, halarm⟩ : ∃ alarm, spec.alarms[i]? = some alarm := by
    cases hget : spec.alarms[i]? with
    | none =>
        rw [hget] at hpresent
        cases hpresent
    | some alarm => exact ⟨alarm, rfl⟩
  have hlt : i < spec.alarms.length := (List.getElem?_eq_some_iff.mp halarm).1
  have hunended := yaml.unended h.printed hback
  have hactions := yaml.actions h.printed hback i
  rw [put_alarmField halarm, put_alarmField halarm] at hunended hactions
  have hitem := congrArg (fun s : DeviceSpec => s.alarms[i]?) hunended
  simp only [DeviceSpec.unended, List.getElem?_map, List.getElem?_set_self hlt, Option.map_some,
    Option.some.injEq] at hitem
  cases field with
  | id => exact congrArg (fun a : AlarmSpec => a.id) hitem
  | condition => exact congrArg (fun a : AlarmSpec => a.condition) hitem
  | severity => exact congrArg AlarmSpec.severity hitem
  | action =>
      have hraw : v = some raw := hraw
      have hread : (Codec.text.option Codec.text_solid).decode (parsePatchValue floats raw) =
        some v' := h.read
      cases v' with
      | some text =>
          have htext := (decode_option_eq_some.mp hread).symm.trans asStr_parsePatchValue
          split at htext
          · rw [hraw, Option.some.inj htext]
          · cases htext
      | none =>
          -- an action that is not there is not made by trimming
          simp only [List.getElem?_set_self hlt] at hactions
          have hnone := congrArg AlarmSpec.action (Option.some.inj (hactions _ rfl rfl))
          exact hnone

/-- Only a text that has been read as the part is read as the device with it, whatever trimming
does to the actions. -/
theorem DeviceField.eq_of_trimmed (field : DeviceField) {v v' : (field.spot floats).β}
    {text : String} (hraw : (field.spot floats).leaf.writes raw v)
    (h : Accepts yaml spec (field.spot floats) raw v' text)
    (hback : yaml.fromStr (Text.trim text) = .ok ((field.spot floats).place.put spec v)) :
    v = v' := by
  have hunended := yaml.unended h.printed hback
  cases field with
  | connectionField field =>
      exact (aside_connection.through (field.spot floats).place (field.path_ne floats)).eq
        h.present hunended
  | identityField field =>
      exact (aside_identity.through (field.spot floats).place (field.path_ne floats)).eq
        h.present hunended
  | signal i => exact (aside_signals.comp (.item signalCodec i)).eq h.present hunended
  | signalField i field =>
      exact ((aside_signals.comp (.item signalCodec i)).comp (field.spot floats).place).eq h.present
        hunended
  | alarms =>
      exact absurd (h.read.symm.trans (decode_parsePatchValue (isCompound_list alarmCodec))) nofun
  | alarm i =>
      exact absurd (h.read.symm.trans (decode_parsePatchValue (isCompound_record alarmShape))) nofun
  | alarmField i field => exact field.eq_of_trimmed hraw h hback
  | _ => exact Aside.eq (fun _ => ⟨rfl, fun _ => rfl⟩) h.present hunended

end Patch

/-! ## Patching a field alone -/

section Main

variable {floats : FloatParser} (yaml : DeviceYaml) (host : SnapshotHost) {fs : FileSystem}
  (folder : AssetFolder fs) (assetId : String) (spec : DeviceSpec)
  (spot : Spot floats deviceCodec) (raw : String) (v : spot.β)

/-- The patch is accepted, and then the stored device is the former one with the value for the
field, and has the id of the asset. -/
def Patches : Prop :=
  ∀ snapshotLabel createdAt,
    let after := patchDeviceField floats yaml host folder assetId (pointerOf spot.place.path) raw
      snapshotLabel createdAt
    after.2 = .ok () ∧
      ∃ patched, storedSpec yaml after.1 assetId = some patched ∧
        patched = spot.place.put spec v ∧ patched.id = assetId

/-- The JSON has the field, the text is read as the value, the ranges of the device are finite and
in order, its id is that of the asset, and it is read from its text without the white space around
it. -/
structure Patchable : Prop where
  present : (spot.place.get spec).isSome
  reads : spot.leaf.reads raw v
  ranges : rangesKept (spot.place.put spec v) = true
  id_eq : (spot.place.put spec v).id = assetId
  trimmed : ∃ text, yaml.toString (spot.place.put spec v) = .ok text ∧
    yaml.fromStr (Text.trim text) = .ok (spot.place.put spec v)

end Main

/-- A rejected patch changes no file. A patch changes its field alone exactly if the field is
patchable. -/
theorem patches_iff (floats : FloatParser) (yaml : DeviceYaml) (host : SnapshotHost)
    {fs : FileSystem} (folder : AssetFolder fs) (assetId : String) :
    (∀ jsonPath value snapshotLabel createdAt e,
      (patchDeviceField floats yaml host folder assetId jsonPath value snapshotLabel
        createdAt).2 = .error e →
      (patchDeviceField floats yaml host folder assetId jsonPath value snapshotLabel
        createdAt).1 = folder) ∧
    ∀ spec, storedSpec yaml folder assetId = some spec →
      ∀ field : DeviceField, (field.spot floats).place.declared spec →
        ∀ raw v, (field.spot floats).leaf.writes raw v →
          (Patches yaml host folder assetId spec (field.spot floats) raw v ↔
            Patchable yaml assetId spec (field.spot floats) raw v) := by
  refine ⟨fun _ _ _ _ _ => patchDeviceField_rejected, ?_⟩
  intro spec hstored field hdeclared raw v hraw
  have hplain : ∀ token ∈ (field.spot floats).place.path, IsPlainToken token :=
    field.isPlainToken_path
  constructor
  · intro h
    obtain ⟨hok, patched, hpatched, rfl, hid⟩ := h none ""
    obtain ⟨v', text, haccepts⟩ := exists_accepts hplain hstored hdeclared hok
    have hback := (haccepts.patch hplain hstored hdeclared).2.symm.trans hpatched
    obtain rfl := field.eq_of_trimmed hraw haccepts (toOption_eq_some.mp hback)
    exact ⟨haccepts.present, ((field.spot floats).leaf.law raw v hraw).mp haccepts.read,
      haccepts.ranges, hid, text, haccepts.printed, toOption_eq_some.mp hback⟩
  · intro h snapshotLabel createdAt
    obtain ⟨text, hprinted, hback⟩ := h.trimmed
    have haccepts : Accepts yaml spec (field.spot floats) raw v text :=
      ⟨h.present, ((field.spot floats).leaf.law raw v hraw).mpr h.reads, h.ranges, hprinted⟩
    obtain ⟨hok, hstored'⟩ := haccepts.patch hplain hstored hdeclared
    exact ⟨hok, _, hstored'.trans (toOption_eq_some.mpr hback), rfl, h.id_eq⟩

/-! ## A pump -/

/-- The devices of a table, each with its text, which is not that of another. -/
def tableYaml (table : List (DeviceSpec × String)) (h : ∀ p ∈ table, ∀ q ∈ table,
    q.2 = Text.trim p.2 ∨ Text.trim q.2 = Text.trim p.2 → q.1 = p.1) : DeviceYaml :=
  let toString spec := match table.find? fun p => p.1 = spec with
    | some p => .ok p.2
    | none => .error ""
  let fromStr text := match table.find? fun q => q.2 = text ∨ Text.trim q.2 = text with
    | some q => .ok q.1
    | none => .error ""
  have same {spec text read} (htext : toString spec = .ok text)
      (hread : fromStr (Text.trim text) = .ok read) : read = spec := by
    simp only [toString, fromStr] at htext hread
    split at htext
    · next p hp =>
        cases htext
        split at hread
        · next q hq =>
            cases hread
            have hspec := List.find?_some hp
            have hcases := List.find?_some hq
            simp only [decide_eq_true_eq] at hspec hcases
            rw [h p (List.mem_of_find?_eq_some hp) q (List.mem_of_find?_eq_some hq) hcases, hspec]
        · cases hread
    · cases htext
  { toString
    fromStr
    invalid := fun _ => ""
    unended := fun htext hread => congrArg DeviceSpec.unended (same htext hread)
    actions := fun htext hread i alarm halarm _ => by rwa [same htext hread] }

def pump (id manufacturer : String) : DeviceSpec where
  id := id
  deviceType := "pump"
  manufacturer := some manufacturer
  model := none
  connection := none
  networkGroup := none
  ethercatIdentity := none
  signals := []
  alarms := []

def pumpYaml : DeviceYaml :=
  tableYaml
    [(pump "pump" "ACME",
        "id: pump\ntype: pump\nmanufacturer: ACME\nsignals: []\nalarms: []\n"),
      (pump "pump" "KSB",
        "id: pump\ntype: pump\nmanufacturer: KSB\nsignals: []\nalarms: []\n"),
      (pump "fan" "ACME",
        "id: fan\ntype: pump\nmanufacturer: ACME\nsignals: []\nalarms: []\n")]
    (by decide)

/-- The texts here are no numbers. -/
def noFloats : FloatParser := ⟨fun _ => none, fun _ _ => rfl⟩

def pumpAsset : AssetFolder FileSystem.caseSensitive where
  latest := Directory.empty.write (latestName .device "pump")
    "id: pump\ntype: pump\nmanufacturer: ACME\nsignals: []\nalarms: []"
  versions := Directory.empty

theorem stored_pumpAsset : storedSpec pumpYaml pumpAsset "pump" = some (pump "pump" "ACME") := by
  decide

/-- The manufacturer is there, and the text looks like nothing else. -/
theorem pump_manufacturer_patched : Patches pumpYaml plainHost pumpAsset "pump" (pump "pump" "ACME")
    (DeviceField.manufacturer.spot noFloats) "KSB" (some "KSB") := by
  refine ((patches_iff noFloats pumpYaml plainHost pumpAsset "pump").2 _ stored_pumpAsset
    .manufacturer trivial "KSB" (some "KSB") rfl).mpr ⟨rfl, rfl, rfl, rfl, ?_⟩
  exact ⟨"id: pump\ntype: pump\nmanufacturer: KSB\nsignals: []\nalarms: []\n", rfl, rfl⟩

/-- A model that is not there cannot be patched, nor can a text be that is a number, and a pump may
become a fan. -/
theorem pump_not_patched :
    ¬ Patches pumpYaml plainHost pumpAsset "pump" (pump "pump" "ACME")
        (DeviceField.model.spot noFloats) "X200" (some "X200") ∧
      ¬ Patches pumpYaml plainHost pumpAsset "pump" (pump "pump" "ACME")
        (DeviceField.manufacturer.spot noFloats) "123" (some "123") ∧
      ¬ Patches pumpYaml plainHost pumpAsset "pump" (pump "pump" "ACME")
        (DeviceField.id.spot noFloats) "fan" "fan" := by
  refine ⟨fun h => ?_, fun h => ?_, fun h => ?_⟩
  · obtain ⟨v, text, h⟩ := exists_accepts DeviceField.model.isPlainToken_path stored_pumpAsset
      trivial (h none "").1
    exact absurd h.present nofun
  · obtain ⟨v, text, h⟩ := exists_accepts DeviceField.manufacturer.isPlainToken_path
      stored_pumpAsset trivial (h none "").1
    exact absurd h.read nofun
  · obtain ⟨-, patched, -, rfl, hid⟩ := h none ""
    exact absurd hid (by decide)

end Nazh.DeviceAsset
