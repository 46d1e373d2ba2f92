import Nazh.Json.Codec

/-!
# Leaves of JSON

The types that a record is made of in the end: texts, numbers, and enumerations by the names of
their variants. A binary64 that is not finite is lost, and a value is kept unless a part of it is
lost.
-/

namespace Nazh

/-! ## Leaves -/

namespace Codec

variable {α β : Type}

def text : Codec String where
  encode := .string
  decode := Value.asStr
  sound _ _ h := (Option.some.inj h).symm
  stable _ _ _ := rfl

def bool : Codec Bool where
  encode := .bool
  decode := Value.asBool
  sound _ _ h := (Option.some.inj h).symm
  stable _ _ _ := rfl

/-- A finite binary64. What is not finite is written as null. -/
def f64 : Codec UInt64 where
  encode := .ofF64
  decode j := j.asF64.filter Lib.isFinite64
  sound a b h := by
    rw [Value.ofF64] at h
    split at h
    · obtain ⟨hb, -⟩ := Option.filter_eq_some_iff.mp h
      exact (Option.some.inj hb).symm
    · cases h
  stable j a h := by
    obtain ⟨-, hfinite⟩ := Option.filter_eq_some_iff.mp h
    rw [Value.ofF64, if_pos hfinite]
    exact Option.filter_eq_some_iff.mpr ⟨rfl, hfinite⟩

theorem toUnsigned_ofNat {size n : ℕ} (hsize : size ≤ 2 ^ 64) (hn : n < size) :
    (Value.number (.ofNat n)).toUnsigned size = some n := by
  have hnat : (UInt64.ofNat n).toNat = n := by
    rw [UInt64.toNat_ofNat', Nat.mod_eq_of_lt (by omega)]
  show (if (UInt64.ofNat n).toNat < size then some (UInt64.ofNat n).toNat else none) = some n
  rw [hnat, if_pos hn]

/-- An unsigned integer type with `size` values. -/
def unsigned (size : ℕ) (hsize : size ≤ 2 ^ 64) (toNat : α → ℕ) (ofNat : ℕ → α)
    (hlt : ∀ a, toNat a < size) (hof : ∀ a, ofNat (toNat a) = a) : Codec α where
  encode a := .number (.ofNat (toNat a))
  decode j := (j.toUnsigned size).map ofNat
  sound a b h := by
    rw [toUnsigned_ofNat hsize (hlt a), Option.map_some, hof] at h
    exact (Option.some.inj h).symm
  stable j a h := by rw [toUnsigned_ofNat hsize (hlt a), Option.map_some, hof]

def u8 : Codec UInt8 := unsigned UInt8.size (by decide) UInt8.toNat UInt8.ofNat
  UInt8.toNat_lt fun _ => UInt8.ofNat_toNat

def u16 : Codec UInt16 := unsigned UInt16.size (by decide) UInt16.toNat UInt16.ofNat
  UInt16.toNat_lt fun _ => UInt16.ofNat_toNat

def u32 : Codec UInt32 := unsigned UInt32.size (by decide) UInt32.toNat UInt32.ofNat
  UInt32.toNat_lt fun _ => UInt32.ofNat_toNat

/-- A variant is found by its name. -/
theorem find_name {name : α → String} {all : List α} (hall : ∀ a, a ∈ all)
    (hname : ∀ a ∈ all, ∀ b ∈ all, name a = name b → a = b) (a : α) :
    (all.find? fun b => name b = name a) = some a := by
  cases hfind : all.find? fun b => name b = name a with
  | none => exact absurd (List.find?_eq_none.mp hfind a (hall a)) (by simp)
  | some b =>
      have hb := List.find?_some hfind
      simp only [decide_eq_true_eq] at hb
      rw [hname b (hall b) a (hall a) hb]

/-- An enumeration, by the names of its variants. -/
def names (name : α → String) (all : List α) (hall : ∀ a, a ∈ all)
    (hname : ∀ a ∈ all, ∀ b ∈ all, name a = name b → a = b) : Codec α where
  encode a := .string (name a)
  decode j := j.asStr.bind fun s => all.find? fun a => name a = s
  sound a b h := by
    have h : (all.find? fun b => name b = name a) = some b := h
    rw [find_name hall hname a] at h
    exact (Option.some.inj h).symm
  stable j a h := find_name hall hname a

theorem text_solid : text.Solid := ⟨fun _ => nofun, rfl⟩

theorem default_nil (c : Codec α) : c.list.decode (c.list.encode []) = some [] := rfl

theorem record_solid (s : Shape α) : (record s).Solid := ⟨fun _ => nofun, rfl⟩

theorem u8_solid : u8.Solid := ⟨fun _ => nofun, rfl⟩

theorem u16_solid : u16.Solid := ⟨fun _ => nofun, rfl⟩

theorem u32_solid : u32.Solid := ⟨fun _ => nofun, rfl⟩

end Codec

/-! ## What is read from what was written -/

/-- A value is read from what was written of it. -/
def Codec.kept {α : Type} (c : Codec α) (a : α) : Bool := (c.decode (c.encode a)).isSome

/-- The same for a record. -/
def Shape.kept {α : Type} (s : Shape α) (a : α) : Bool := (s.read (s.member a)).isSome

section Kept

variable {α β : Type} {c : Codec α} {s : Shape α} {t : Shape β}

/-- What is kept is read as itself. -/
theorem Codec.decode_encode_of_kept {a : α} (h : c.kept a = true) :
    c.decode (c.encode a) = some a := by
  obtain ⟨b, hb⟩ := Option.isSome_iff_exists.mp h
  rw [hb, c.sound a b hb]

theorem kept_of_decode {j : Value} {a : α} (h : c.decode j = some a) : c.kept a = true := by
  rw [Codec.kept, c.stable j a h]
  rfl

@[simp] theorem kept_text (a : String) : Codec.text.kept a = true := rfl

@[simp] theorem kept_bool (a : Bool) : Codec.bool.kept a = true := rfl

@[simp] theorem kept_u8 (a : UInt8) : Codec.u8.kept a = true := by
  rw [Codec.kept, Codec.u8, Codec.unsigned]
  simp only [Codec.toUnsigned_ofNat (by decide : UInt8.size ≤ 2 ^ 64) a.toNat_lt, Option.map_some,
    Option.isSome_some]

@[simp] theorem kept_u16 (a : UInt16) : Codec.u16.kept a = true := by
  rw [Codec.kept, Codec.u16, Codec.unsigned]
  simp only [Codec.toUnsigned_ofNat (by decide : UInt16.size ≤ 2 ^ 64) a.toNat_lt, Option.map_some,
    Option.isSome_some]

@[simp] theorem kept_u32 (a : UInt32) : Codec.u32.kept a = true := by
  rw [Codec.kept, Codec.u32, Codec.unsigned]
  simp only [Codec.toUnsigned_ofNat (by decide : UInt32.size ≤ 2 ^ 64) a.toNat_lt, Option.map_some,
    Option.isSome_some]

@[simp] theorem kept_names {name : α → String} {all : List α} (hall : ∀ a, a ∈ all)
    (hname : ∀ a ∈ all, ∀ b ∈ all, name a = name b → a = b) (a : α) :
    (Codec.names name all hall hname).kept a = true := by
  have hread : (Codec.names name all hall hname).decode
      ((Codec.names name all hall hname).encode a) = some a := Codec.find_name hall hname a
  rw [Codec.kept, hread]
  rfl

@[simp] theorem kept_required (name : String) (a : α) : (Shape.required name c).kept a = c.kept a :=
  rfl

@[simp] theorem kept_defaulted (name : String) (default a : α)
    (hdefault : c.decode (c.encode default) = some default) :
    (Shape.defaulted name c default hdefault).kept a = c.kept a := rfl

@[simp] theorem kept_optional (name : String) (hc : c.Solid) (a : Option α) :
    (Shape.optional name c hc).kept a = a.all c.kept := by
  cases a with
  | none => rfl
  | some a =>
      have hread : ((c.option hc).decode ((c.option hc).encode (some a))).isSome = c.kept a := by
        rw [c.decode_option_encode hc a, Option.isSome_map]
        rfl
      exact hread

@[simp] theorem kept_constant (name tag : String) (a : Unit) :
    (Shape.constant name tag).kept a = true := by
  simp [Shape.kept, Shape.constant]

@[simp] theorem kept_and (hst : ∀ k ∈ t.names, k ∉ s.names) (ab : α × β) :
    (s.and t hst).kept ab = (s.kept ab.1 && t.kept ab.2) := by
  simp only [Shape.kept, Shape.and, Shape.read_joined_left, Shape.read_joined_right hst]
  cases s.read (s.member ab.1) with
  | none => rfl
  | some a => exact Option.isSome_map

@[simp] theorem kept_either {name tag : String} (htag : Shape.ToldBy name tag s t) (ab : α ⊕ β) :
    (Shape.either name tag s t htag).kept ab = ab.elim s.kept t.kept := by
  cases ab with
  | inl a =>
      simp only [Shape.kept, Shape.either, Shape.readEither_inl htag, Option.isSome_map]
      rfl
  | inr b =>
      simp only [Shape.kept, Shape.either, Shape.readEither_inr htag, Option.isSome_map]
      rfl

@[simp] theorem kept_iso {f : α → β} {g : β → α} (hfg : ∀ b, f (g b) = b) (hgf : ∀ a, g (f a) = a)
    (b : β) : (s.iso f g hfg hgf).kept b = s.kept (g b) := by
  rw [Shape.kept, Shape.iso, Option.isSome_map]
  rfl

@[simp] theorem kept_record (a : α) : (Codec.record s).kept a = s.kept a :=
  congrArg Option.isSome (s.read_fields a)

@[simp] theorem kept_list (as : List α) : c.list.kept as = as.all c.kept := by
  rw [Bool.eq_iff_iff, List.all_eq_true]
  constructor
  · intro h a ha
    obtain ⟨bs, hbs⟩ := Option.isSome_iff_exists.mp h
    have hread := hbs
    rw [c.list.sound as bs hbs, Codec.decode_list, List.forall₂_same] at hread
    rw [Codec.kept, hread a ha]
    rfl
  · intro h
    have hread : c.list.decode (c.list.encode as) = some as :=
      Codec.decode_list.mpr (List.forall₂_same.mpr fun a ha => Codec.decode_encode_of_kept (h a ha))
    rw [Codec.kept, hread]
    rfl

@[simp] theorem kept_f64 (bits : UInt64) : Codec.f64.kept bits = Lib.isFinite64 bits := by
  have hencode : Codec.f64.encode bits =
      if Lib.isFinite64 bits then .number (.float bits) else .null := rfl
  rw [Codec.kept, hencode]
  cases hfinite : Lib.isFinite64 bits with
  | true => exact congrArg Option.isSome (Option.filter_eq_some_iff.mpr ⟨rfl, hfinite⟩)
  | false => rfl

@[simp] theorem kept_pair {d : Codec β} (ab : α × β) :
    (c.pair d).kept ab = (c.kept ab.1 && d.kept ab.2) := by
  simp only [Codec.kept, Codec.pair]
  cases c.decode (c.encode ab.1) with
  | none => rfl
  | some a => exact Option.isSome_map

@[simp] theorem kept_codecIso {f : α → β} {g : β → α} (hfg : ∀ b, f (g b) = b)
    (hgf : ∀ a, g (f a) = a) (b : β) : (c.iso f g hfg hgf).kept b = c.kept (g b) :=
  Option.isSome_map

@[simp] theorem kept_refine (ok : α → Bool) (a : α) :
    (c.refine ok).kept a = (c.kept a && ok a) := by
  simp only [Codec.kept, Codec.refine]
  cases hread : c.decode (c.encode a) with
  | none => rfl
  | some b =>
      obtain rfl := c.sound a b hread
      rw [Option.filter_some]
      cases ok b <;> rfl

end Kept

end Nazh
