import Mathlib.Data.List.Basic
import Mathlib.Tactic.IntervalCases
import Nazh.Core.Text
import Nazh.Json.Read
import Nazh.Lib.Lists

/-!
# Types that are written as JSON

A codec writes the values of a type as JSON and reads them again. What is read again is what was
written. The derive attributes make a codec of a record from those of its members, and a place in
such a type is where one member of it is found in the JSON.
-/

namespace Nazh

open Lib

/-! ## Pointers -/

/-- `parse_index`. -/
def parseIndex (token : String) : Option ℕ :=
  if ['+'] <+: token.toList ∨ (['0'] <+: token.toList ∧ token.toList.length ≠ 1) then none
  else (Text.parseUnsigned 64 token).toOption

/-- The digits of a number do not begin with a zero, unless it is zero. -/
theorem zero_prefix_toDigits {n : ℕ} (h : ['0'] <+: Nat.toDigits 10 n) : n = 0 := by
  induction n using Nat.strongRecOn with
  | ind n ih =>
      by_cases hn : n < 10
      · rw [Nat.toDigits_of_lt_base hn] at h
        have hchar := (List.cons_prefix_cons.mp h).1
        interval_cases n <;> first | rfl | exact absurd hchar (by decide)
      · rw [Nat.toDigits_of_base_le (by decide) (Nat.le_of_not_lt hn)] at h
        have hne : Nat.toDigits 10 (n / 10) ≠ [] := Nat.toDigits_ne_nil
        have hprefix : ['0'] <+: Nat.toDigits 10 (n / 10) :=
          List.prefix_of_prefix_length_le h (List.prefix_append _ _)
            (List.length_pos_iff.mpr hne)
        have hzero := ih (n / 10) (by omega) hprefix
        omega

/-- An index is read from its own text. -/
theorem parseIndex_toString {i : ℕ} (hi : i < 2 ^ 64) : parseIndex (toString i) = some i := by
  have hlist : (toString i).toList = Nat.toDigits 10 i := by
    rw [Nat.toString_eq_ofList_toDigits, String.toList_ofList]
  have hread := Text.parseUnsigned_eq_ok.mpr ⟨Text.isDecimal_toString i, hi⟩
  rw [parseIndex, if_neg, hread]
  · rfl
  · rw [hlist]
    rintro (⟨rest, hplus⟩ | ⟨⟨rest, hzero⟩, hlength⟩)
    · have hdigit := Nat.isDigit_of_mem_toDigits (by decide) (by decide)
        (hplus ▸ List.mem_cons_self : '+' ∈ Nat.toDigits 10 i)
      exact absurd hdigit (by decide)
    · rw [zero_prefix_toDigits ⟨rest, hzero⟩] at hlength
      exact hlength rfl

namespace Value

/-- `pointer_mut` along tokens, and what is done with the value that it finds. -/
def modify (f : Value → Option Value) : List String → Value → Option Value
  | [], v => f v
  | token :: rest, .object fields => match fields.lookup token with
    | none => none
    | some w => (modify f rest w).map fun w' => .object
        (fields.map fun field => if field.1 = token then (token, w') else field)
  | token :: rest, .array items => (parseIndex token).bind fun i => (items[i]?).bind fun w =>
      (modify f rest w).map fun w' => .array (items.set i w')
  | _ :: _, _ => none

variable {f : Value → Option Value} {p q : List String} {v w : Value}

theorem modify_append (f : Value → Option Value) (p q : List String) (v : Value) :
    modify f (p ++ q) v = modify (modify f q) p v := by
  induction p generalizing v with
  | nil => rfl
  | cons token rest ih =>
      cases v with
      | object fields => simp only [List.cons_append, modify, ih]
      | array items => simp only [List.cons_append, modify, ih]
      | _ => rfl

/-- What has a value within it is not null. -/
theorem modify_ne_null (hp : p ≠ []) (h : modify f p v = some w) : w ≠ .null := by
  cases p with
  | nil => exact absurd rfl hp
  | cons token rest =>
      rintro rfl
      cases v with
      | object fields =>
          rw [modify] at h
          split at h
          · cases h
          · obtain ⟨_, -, hw⟩ := Option.map_eq_some_iff.mp h
            cases hw
      | array items =>
          obtain ⟨_, -, hindex⟩ := Option.bind_eq_some_iff.mp h
          obtain ⟨_, -, hitem⟩ := Option.bind_eq_some_iff.mp hindex
          obtain ⟨_, -, hw⟩ := Option.map_eq_some_iff.mp hitem
          cases hw
      | _ => cases h

end Value

/-! ## Lists that are read -/

section Lists

variable {α β : Type} {read : β → Option α} {xs ys : List β} {as : List α}

theorem mapM_eq_some_iff :
    xs.mapM read = some as ↔ List.Forall₂ (fun x a => read x = some a) xs as := by
  induction xs generalizing as with
  | nil =>
      rw [List.mapM_nil, List.forall₂_nil_left_iff]
      exact eq_comm.trans (by simp)
  | cons x xs ih =>
      rw [List.mapM_cons, List.forall₂_cons_left_iff]
      constructor
      · intro h
        obtain ⟨a, ha, hrest⟩ := Option.bind_eq_some_iff.mp h
        obtain ⟨as', has, heq⟩ := Option.bind_eq_some_iff.mp hrest
        exact ⟨a, as', ha, ih.mp has, (Option.some.inj heq).symm⟩
      · rintro ⟨a, as', ha, has, rfl⟩
        rw [ha, ih.mpr has]
        rfl

/-- What a list is read as depends on what its items are read as. -/
theorem mapM_congr_map (h : xs.map read = ys.map read) : xs.mapM read = ys.mapM read := by
  induction xs generalizing ys with
  | nil =>
      rw [List.map_nil, eq_comm, List.map_eq_nil_iff] at h
      rw [h]
  | cons x xs ih =>
      cases ys with
      | nil => cases h
      | cons y ys =>
          obtain ⟨hx, hxs⟩ := List.cons.inj h
          rw [List.mapM_cons, List.mapM_cons, hx, ih hxs]

theorem mapM_eq_none {x : β} (hmem : x ∈ xs) (hx : read x = none) : xs.mapM read = none := by
  cases hread : xs.mapM read with
  | none => rfl
  | some as =>
      obtain ⟨a, -, ha⟩ := exists_right_of_forall₂ (mapM_eq_some_iff.mp hread) hmem
      rw [hx] at ha
      cases ha

end Lists

/-! ## Codecs -/

/-- How the values of a type are written and read. What is read from what was written is what was
written, and what was read is written so that it can be read again. -/
structure Codec (α : Type) where
  encode : α → Value
  decode : Value → Option α
  sound : ∀ a b, decode (encode a) = some b → b = a
  stable : ∀ j a, decode j = some a → decode (encode a) = some a

namespace Codec

variable {α β : Type}

/-- Null is neither written nor read. -/
structure Solid (c : Codec α) : Prop where
  encode_ne : ∀ a, c.encode a ≠ .null
  decode_null : c.decode .null = none

/-- An `Option`: null is none. -/
def option (c : Codec α) (hc : c.Solid) : Codec (Option α) where
  encode a := (a.map c.encode).getD .null
  decode
    | .null => some none
    | j => (c.decode j).map some
  sound a b h := by
    cases a with
    | none => exact (Option.some.inj h).symm
    | some a =>
        simp only [Option.map_some, Option.getD_some] at h
        split at h
        · exact absurd ‹_› (hc.encode_ne a)
        · obtain ⟨b', hb, rfl⟩ := Option.map_eq_some_iff.mp h
          rw [c.sound a b' hb]
  stable j a h := by
    cases a with
    | none => rfl
    | some a =>
        have hread : c.decode j = some a := by
          split at h
          · cases h
          · obtain ⟨_, hb, heq⟩ := Option.map_eq_some_iff.mp h
            cases heq
            exact hb
        simp only [Option.map_some, Option.getD_some]
        split
        · exact absurd ‹_› (hc.encode_ne a)
        · rw [c.stable j a hread]
          rfl

theorem decode_option_of_ne (c : Codec α) (hc : c.Solid) {j : Value} (hj : j ≠ .null) :
    (c.option hc).decode j = (c.decode j).map some := by
  cases j <;> first | rfl | exact absurd rfl hj

theorem decode_option_encode (c : Codec α) (hc : c.Solid) (a : α) :
    (c.option hc).decode ((c.option hc).encode (some a)) = (c.decode (c.encode a)).map some :=
  c.decode_option_of_ne hc (hc.encode_ne a)

/-- A `Vec`. -/
def list (c : Codec α) : Codec (List α) where
  encode as := .array (as.map c.encode)
  decode j := j.toList c.decode
  sound as bs h := by
    rw [Value.toList, mapM_eq_some_iff, List.forall₂_map_left_iff] at h
    have heq := h.imp fun a b hread => (c.sound a b hread).symm
    rw [List.forall₂_eq_eq_eq] at heq
    exact heq.symm
  stable j as h := by
    rw [Value.toList, mapM_eq_some_iff, List.forall₂_map_left_iff, List.forall₂_same]
    intro a ha
    cases j with
    | array items =>
        obtain ⟨item, -, hread⟩ := exists_left_of_forall₂ (mapM_eq_some_iff.mp h) ha
        exact c.stable item a hread
    | _ => cases h

theorem decode_list {c : Codec α} {as bs : List α} :
    c.list.decode (c.list.encode as) = some bs ↔
      List.Forall₂ (fun a b => c.decode (c.encode a) = some b) as bs :=
  mapM_eq_some_iff.trans List.forall₂_map_left_iff

/-- A type whose values are checked when they are read. -/
def refine (c : Codec α) (ok : α → Bool) : Codec α where
  encode := c.encode
  decode j := (c.decode j).filter ok
  sound a b h := by
    obtain ⟨hread, -⟩ := Option.filter_eq_some_iff.mp h
    exact c.sound a b hread
  stable j a h := by
    obtain ⟨hread, hok⟩ := Option.filter_eq_some_iff.mp h
    exact Option.filter_eq_some_iff.mpr ⟨c.stable j a hread, hok⟩

/-- A type told as another. -/
def iso (c : Codec α) (f : α → β) (g : β → α) (hfg : ∀ b, f (g b) = b) (hgf : ∀ a, g (f a) = a) :
    Codec β where
  encode b := c.encode (g b)
  decode j := (c.decode j).map f
  sound a b h := by
    obtain ⟨a', hread, rfl⟩ := Option.map_eq_some_iff.mp h
    rw [c.sound _ _ hread, hfg]
  stable j b h := by
    obtain ⟨a, hread, rfl⟩ := Option.map_eq_some_iff.mp h
    rw [hgf, c.stable j a hread]
    rfl

/-- A tuple of two. -/
def pair (c : Codec α) (d : Codec β) : Codec (α × β) where
  encode ab := .array [c.encode ab.1, d.encode ab.2]
  decode
    | .array [x, y] => (c.decode x).bind fun a => (d.decode y).map fun b => (a, b)
    | _ => none
  sound ab ab' h := by
    obtain ⟨a, ha, hrest⟩ := Option.bind_eq_some_iff.mp h
    obtain ⟨b, hb, rfl⟩ := Option.map_eq_some_iff.mp hrest
    rw [c.sound _ _ ha, d.sound _ _ hb]
  stable j ab h := by
    split at h
    · obtain ⟨a, ha, hrest⟩ := Option.bind_eq_some_iff.mp h
      obtain ⟨b, hb, rfl⟩ := Option.map_eq_some_iff.mp hrest
      simp only [c.stable _ a ha, d.stable _ b hb, Option.bind_some, Option.map_some]
    · cases h

end Codec

/-! ## Records -/

/-- The members of a record: how they are written, each unless it is left out, and how the record
is read from what is under their names. -/
structure Shape (α : Type) where
  names : List String
  member : α → String → Option Value
  read : (String → Option Value) → Option α
  read_congr : ∀ {f g}, (∀ k ∈ names, f k = g k) → read f = read g
  sound : ∀ a b, read (member a) = some b → b = a
  stable : ∀ f a, read f = some a → read (member a) = some a

namespace Shape

variable {α β : Type}

/-- A member without a default. -/
def required (name : String) (c : Codec α) : Shape α where
  names := [name]
  member a _ := some (c.encode a)
  read f := (f name).bind c.decode
  read_congr h := by rw [h name List.mem_cons_self]
  sound a b h := c.sound a b h
  stable f a h := by
    obtain ⟨j, -, hread⟩ := Option.bind_eq_some_iff.mp h
    exact c.stable j a hread

/-- `#[serde(default)]`. -/
def defaulted (name : String) (c : Codec α) (default : α)
    (hdefault : c.decode (c.encode default) = some default) : Shape α where
  names := [name]
  member a _ := some (c.encode a)
  read f := match f name with
    | none => some default
    | some j => c.decode j
  read_congr h := by rw [h name List.mem_cons_self]
  sound a b h := c.sound a b h
  stable f a h := by
    split at h
    · cases h
      exact hdefault
    · exact c.stable _ a h

/-- `#[serde(default)]` and `#[serde(skip_serializing_if = "Option::is_none")]`. -/
def optional (name : String) (c : Codec α) (hc : c.Solid) : Shape (Option α) where
  names := [name]
  member a _ := a.map c.encode
  read f := match f name with
    | none => some none
    | some j => (c.option hc).decode j
  read_congr h := by rw [h name List.mem_cons_self]
  sound a b h := by
    cases a with
    | none => exact (Option.some.inj h).symm
    | some a => exact (c.option hc).sound (some a) b h
  stable f a h := by
    cases a with
    | none => rfl
    | some a =>
        split at h
        · cases h
        · exact (c.option hc).stable _ (some a) h

/-- The tag of a variant. -/
def constant (name text : String) : Shape Unit where
  names := [name]
  member _ _ := some (.string text)
  read f := if f name = some (.string text) then some () else none
  read_congr h := by rw [h name List.mem_cons_self]
  sound _ _ _ := rfl
  stable _ _ _ := if_pos rfl

section Joined

variable (s : Shape α) (t : Shape β)

/-- The members of two records in one. -/
def joined (ab : α × β) (k : String) : Option Value :=
  if k ∈ s.names then s.member ab.1 k else t.member ab.2 k

theorem read_joined_left (ab : α × β) : s.read (joined s t ab) = s.read (s.member ab.1) :=
  s.read_congr fun _ hk => if_pos hk

variable {s t}

theorem read_joined_right (hst : ∀ k ∈ t.names, k ∉ s.names) (ab : α × β) :
    t.read (joined s t ab) = t.read (t.member ab.2) :=
  t.read_congr fun k hk => if_neg (hst k hk)

/-- Both records in one. -/
def and (s : Shape α) (t : Shape β) (hst : ∀ k ∈ t.names, k ∉ s.names) : Shape (α × β) where
  names := s.names ++ t.names
  member := joined s t
  read f := (s.read f).bind fun a => (t.read f).map fun b => (a, b)
  read_congr h := by
    rw [s.read_congr fun k hk => h k (List.mem_append_left _ hk),
      t.read_congr fun k hk => h k (List.mem_append_right _ hk)]
  sound ab ab' h := by
    rw [read_joined_left, read_joined_right hst] at h
    obtain ⟨a, ha, hrest⟩ := Option.bind_eq_some_iff.mp h
    obtain ⟨b, hb, rfl⟩ := Option.map_eq_some_iff.mp hrest
    rw [s.sound _ _ ha, t.sound _ _ hb]
  stable f ab h := by
    obtain ⟨a, ha, hrest⟩ := Option.bind_eq_some_iff.mp h
    obtain ⟨b, hb, rfl⟩ := Option.map_eq_some_iff.mp hrest
    rw [read_joined_left, read_joined_right hst, s.stable f a ha, t.stable f b hb]
    rfl

end Joined

section Either

variable (name tag : String) (s : Shape α) (t : Shape β)

/-- The members of one record or of another. -/
def oneOf : α ⊕ β → String → Option Value
  | .inl a, k => if k ∈ s.names then s.member a k else none
  | .inr b, k => if k ∈ t.names then t.member b k else none

/-- Which record there is, is told by a tag. -/
def readEither (f : String → Option Value) : Option (α ⊕ β) :=
  if f name = some (.string tag) then (s.read f).map Sum.inl else (t.read f).map Sum.inr

/-- Records are told apart by a tag: the one has it, and the other has another. -/
structure ToldBy : Prop where
  left_mem : name ∈ s.names
  right_mem : name ∈ t.names
  left : ∀ a, s.member a name = some (.string tag)
  right : ∀ b, t.member b name ≠ some (.string tag)

variable {name tag s t}

theorem readEither_inl (htag : ToldBy name tag s t) (a : α) :
    readEither name tag s t (oneOf s t (.inl a)) = (s.read (s.member a)).map Sum.inl := by
  have hname : oneOf s t (.inl a) name = some (.string tag) :=
    (if_pos htag.left_mem).trans (htag.left a)
  have hread : s.read (oneOf s t (.inl a)) = s.read (s.member a) :=
    s.read_congr fun _ hk => if_pos hk
  rw [readEither, if_pos hname, hread]

theorem readEither_inr (htag : ToldBy name tag s t) (b : β) :
    readEither name tag s t (oneOf s t (.inr b)) = (t.read (t.member b)).map Sum.inr := by
  have hname : oneOf s t (.inr b) name ≠ some (.string tag) := fun h =>
    htag.right b ((if_pos htag.right_mem).symm.trans h)
  have hread : t.read (oneOf s t (.inr b)) = t.read (t.member b) :=
    t.read_congr fun _ hk => if_pos hk
  rw [readEither, if_neg hname, hread]

/-- One record or another, by a tag. -/
def either (name tag : String) (s : Shape α) (t : Shape β) (htag : ToldBy name tag s t) :
    Shape (α ⊕ β) where
  names := s.names ++ t.names
  member := oneOf s t
  read := readEither name tag s t
  read_congr h := by
    rw [readEither, readEither, h name (List.mem_append_left _ htag.left_mem),
      s.read_congr fun k hk => h k (List.mem_append_left _ hk),
      t.read_congr fun k hk => h k (List.mem_append_right _ hk)]
  sound ab ab' h := by
    cases ab with
    | inl a =>
        rw [readEither_inl htag] at h
        obtain ⟨a', ha, rfl⟩ := Option.map_eq_some_iff.mp h
        rw [s.sound a a' ha]
    | inr b =>
        rw [readEither_inr htag] at h
        obtain ⟨b', hb, rfl⟩ := Option.map_eq_some_iff.mp h
        rw [t.sound b b' hb]
  stable f ab h := by
    rw [readEither] at h
    split at h
    · obtain ⟨a, ha, rfl⟩ := Option.map_eq_some_iff.mp h
      rw [readEither_inl htag, s.stable f a ha]
      rfl
    · obtain ⟨b, hb, rfl⟩ := Option.map_eq_some_iff.mp h
      rw [readEither_inr htag, t.stable f b hb]
      rfl

end Either

/-- A record told as another type. -/
def iso (s : Shape α) (f : α → β) (g : β → α) (hfg : ∀ b, f (g b) = b) (hgf : ∀ a, g (f a) = a) :
    Shape β where
  names := s.names
  member b := s.member (g b)
  read h := (s.read h).map f
  read_congr h := by rw [s.read_congr h]
  sound b b' h := by
    obtain ⟨a, ha, rfl⟩ := Option.map_eq_some_iff.mp h
    rw [s.sound _ _ ha, hfg]
  stable h b hread := by
    obtain ⟨a, ha, rfl⟩ := Option.map_eq_some_iff.mp hread
    rw [hgf, s.stable h a ha]
    rfl

/-- The fields that a record is written as. -/
def fields (s : Shape α) (a : α) : Fields :=
  s.names.foldl (fun fields k => Fields.insertSome fields k (s.member a k)) []

theorem lookup_foldl_insertSome (names : List String) (member : String → Option Value)
    (acc : Fields) (k : String) :
    (names.foldl (fun fields k => Fields.insertSome fields k (member k)) acc).lookup k =
      if k ∈ names then (member k).or (acc.lookup k) else acc.lookup k := by
  induction names generalizing acc with
  | nil => rfl
  | cons name names ih =>
      rw [List.foldl_cons, ih]
      by_cases hk : k = name
      · subst hk
        have hself : (acc.insertSome k (member k)).lookup k = (member k).or (acc.lookup k) := by
          cases hmember : member k with
          | none => rfl
          | some v => exact Fields.lookup_insert_self acc k v
        rw [hself, if_pos List.mem_cons_self]
        split
        · cases member k <;> rfl
        · rfl
      · rw [Fields.lookup_insertSome_of_ne _ _ hk]
        simp only [List.mem_cons, hk, false_or]

theorem lookup_fields (s : Shape α) (a : α) {k : String} (hk : k ∈ s.names) :
    (s.fields a).lookup k = s.member a k := by
  rw [fields, lookup_foldl_insertSome, if_pos hk]
  exact Option.or_none

theorem read_fields (s : Shape α) (a : α) :
    (s.read fun k => (s.fields a).lookup k) = s.read (s.member a) :=
  s.read_congr fun _ hk => s.lookup_fields a hk

end Shape

/-- A record is an object. -/
def Codec.record {α : Type} (s : Shape α) : Codec α where
  encode a := .object (s.fields a)
  decode
    | .object fields => s.read fun k => fields.lookup k
    | _ => none
  sound a b h := s.sound a b ((s.read_fields a).symm.trans h)
  stable j a h := by
    cases j with
    | object fields => exact (s.read_fields a).trans (s.stable _ a h)
    | _ => cases h

/-! ## Places -/

/-- Where a part of a type is found in its JSON: below the tokens. It has the part or not, and can
be given another. The types that have it may have it only in some variants, or if they are long
enough. -/
structure Place {α β : Type} (c : Codec α) (leaf : Codec β) where
  path : List String
  declared : α → Prop
  get : α → Option β
  put : α → β → α
  /-- Changing the JSON there changes the part, and nothing else. -/
  law : ∀ f a, declared a → (Value.modify f path (c.encode a)).map c.decode =
    (get a).bind fun b => (f (leaf.encode b)).map fun j =>
      (leaf.decode j).bind fun v => c.decode (c.encode (put a v))
  /-- What can be read as a whole can be read in part. -/
  part : ∀ a v, (get a).isSome → (c.decode (c.encode (put a v))).isSome →
    (leaf.decode (leaf.encode v)).isSome
  /-- Other parts make other wholes. -/
  inj : ∀ a v v', (get a).isSome → put a v = put a v' → v = v'

/-- A member of a record. -/
structure Shape.Member {α β : Type} (s : Shape α) (leaf : Codec β) where
  name : String
  mem : name ∈ s.names
  declared : α → Prop
  get : α → Option β
  put : α → β → α
  member_eq : ∀ a, declared a → s.member a name = (get a).map leaf.encode
  read_update : ∀ a j, (get a).isSome → s.read (Function.update (s.member a) name (some j)) =
    (leaf.decode j).bind fun v => s.read (s.member (put a v))
  part : ∀ a v, (get a).isSome → (s.read (s.member (put a v))).isSome →
    (leaf.decode (leaf.encode v)).isSome
  inj : ∀ a v v', (get a).isSome → put a v = put a v' → v = v'

namespace Shape.Member

variable {α β γ : Type} {s : Shape α} {t : Shape β} {leaf : Codec γ}

/-- What is read is what can be read again. -/
theorem bind_decode {c : Codec α} (j : Value) :
    c.decode j = (c.decode j).bind fun v => c.decode (c.encode v) := by
  cases h : c.decode j with
  | none => rfl
  | some v => exact (c.stable j v h).symm

/-- A change under a name is read alike where the members are alike. -/
theorem read_update_congr (s : Shape α) {f g : String → Option Value} {name : String}
    {j : Option Value} (h : ∀ k ∈ s.names, f k = g k) :
    s.read (Function.update f name j) = s.read (Function.update g name j) := by
  refine s.read_congr fun k hk => ?_
  by_cases hname : k = name
  · rw [hname, Function.update_self, Function.update_self]
  · rw [Function.update_of_ne hname, Function.update_of_ne hname, h k hk]

/-- A change under another name is not read. -/
theorem read_update_of_notMem (s : Shape α) {f g : String → Option Value} {name : String}
    {j : Option Value} (hname : name ∉ s.names) (h : ∀ k ∈ s.names, f k = g k) :
    s.read (Function.update f name j) = s.read g :=
  s.read_congr fun k hk =>
    (Function.update_of_ne (ne_of_mem_of_not_mem hk hname) ..).trans (h k hk)

def required (name : String) (c : Codec α) : (Shape.required name c).Member c where
  name := name
  mem := List.mem_cons_self
  declared _ := True
  get := some
  put _ v := v
  member_eq _ _ := rfl
  read_update a j _ := by
    simp only [Shape.required, Function.update_self]
    exact bind_decode j
  part a v _ h := h
  inj _ _ _ _ h := h

def defaulted (name : String) (c : Codec α) (default : α)
    (hdefault : c.decode (c.encode default) = some default) :
    (Shape.defaulted name c default hdefault).Member c where
  name := name
  mem := List.mem_cons_self
  declared _ := True
  get := some
  put _ v := v
  member_eq _ _ := rfl
  read_update a j _ := by
    simp only [Shape.defaulted, Function.update_self]
    exact bind_decode j
  part a v _ h := h
  inj _ _ _ _ h := h

def optional (name : String) (c : Codec α) (hc : c.Solid) :
    (Shape.optional name c hc).Member (c.option hc) where
  name := name
  mem := List.mem_cons_self
  declared _ := True
  get a := a.map some
  put _ v := v
  member_eq a _ := by cases a <;> rfl
  read_update a j _ := by
    simp only [Shape.optional, Function.update_self]
    cases h : (c.option hc).decode j with
    | none => rfl
    | some v =>
        cases v with
        | none => rfl
        | some v => exact ((c.option hc).stable j (some v) h).symm
  part a v _ h := by
    cases v with
    | none => rfl
    | some v => exact h
  inj _ _ _ _ h := h

section Joined

variable {hst : ∀ k ∈ t.names, k ∉ s.names}

/-- A member of the first of two records in one. -/
def fst (m : s.Member leaf) : (s.and t hst).Member leaf where
  name := m.name
  mem := List.mem_append_left _ m.mem
  declared ab := m.declared ab.1
  get ab := m.get ab.1
  put ab v := (m.put ab.1 v, ab.2)
  member_eq ab h := (if_pos m.mem).trans (m.member_eq ab.1 h)
  read_update ab j h := by
    have hleft : s.read (Function.update (joined s t ab) m.name (some j)) =
        s.read (Function.update (s.member ab.1) m.name (some j)) :=
      read_update_congr s fun k hk => if_pos hk
    have hright : t.read (Function.update (joined s t ab) m.name (some j)) =
        t.read (t.member ab.2) :=
      read_update_of_notMem t (fun hname => hst _ hname m.mem) fun k hk => if_neg (hst k hk)
    simp only [Shape.and, hleft, hright, m.read_update ab.1 j h, read_joined_left,
      read_joined_right hst, Option.bind_assoc]
  part ab v h hread := by
    simp only [Shape.and, read_joined_left] at hread
    exact m.part ab.1 v h (Option.isSome_of_isSome_bind hread)
  inj ab v v' h heq := m.inj ab.1 v v' h (Prod.mk.inj heq).1

/-- A member of the second of two records in one. -/
def snd (m : t.Member leaf) : (s.and t hst).Member leaf where
  name := m.name
  mem := List.mem_append_right _ m.mem
  declared ab := m.declared ab.2
  get ab := m.get ab.2
  put ab v := (ab.1, m.put ab.2 v)
  member_eq ab h := (if_neg (hst _ m.mem)).trans (m.member_eq ab.2 h)
  read_update ab j h := by
    have hleft : s.read (Function.update (joined s t ab) m.name (some j)) =
        s.read (s.member ab.1) :=
      read_update_of_notMem s (hst _ m.mem) fun k hk => if_pos hk
    have hright : t.read (Function.update (joined s t ab) m.name (some j)) =
        t.read (Function.update (t.member ab.2) m.name (some j)) :=
      read_update_congr t fun k hk => if_neg (hst k hk)
    simp only [Shape.and, hleft, hright, m.read_update ab.2 j h, read_joined_left,
      read_joined_right hst]
    cases s.read (s.member ab.1) with
    | none => cases leaf.decode j <;> rfl
    | some a => simp only [Option.bind_some, Option.map_bind, Function.comp_def]
  part ab v h hread := by
    simp only [Shape.and, read_joined_right hst] at hread
    obtain ⟨ab', hab⟩ := Option.isSome_iff_exists.mp hread
    obtain ⟨a, -, hright⟩ := Option.bind_eq_some_iff.mp hab
    obtain ⟨b, hb, -⟩ := Option.map_eq_some_iff.mp hright
    exact m.part ab.2 v h (Option.isSome_iff_exists.mpr ⟨b, hb⟩)
  inj ab v v' h heq := m.inj ab.2 v v' h (Prod.mk.inj heq).2

end Joined

section Either

variable {name tag : String} {htag : ToldBy name tag s t}

/-- A member of the one of two records. -/
def inl (m : s.Member leaf) (hne : m.name ≠ name) :
    (Shape.either name tag s t htag).Member leaf where
  name := m.name
  mem := List.mem_append_left _ m.mem
  declared
    | .inl a => m.declared a
    | .inr _ => False
  get
    | .inl a => m.get a
    | .inr _ => none
  put
    | .inl a, v => .inl (m.put a v)
    | .inr b, _ => .inr b
  member_eq ab h := by
    cases ab with
    | inl a => exact (if_pos m.mem).trans (m.member_eq a h)
    | inr b => cases h
  read_update ab j h := by
    cases ab with
    | inl a =>
        have htold : Function.update (oneOf s t (.inl a)) m.name (some j) name =
            some (.string tag) := by
          rw [Function.update_of_ne hne.symm]
          exact (if_pos htag.left_mem).trans (htag.left a)
        have hleft : s.read (Function.update (oneOf s t (.inl a)) m.name (some j)) =
            s.read (Function.update (s.member a) m.name (some j)) :=
          read_update_congr s fun k hk => if_pos hk
        simp only [Shape.either, readEither_inl htag]
        rw [readEither, if_pos htold, hleft, m.read_update a j h, Option.map_bind]
        rfl
    | inr b => cases h
  part ab v h hread := by
    cases ab with
    | inl a =>
        simp only [Shape.either, readEither_inl htag, Option.isSome_map] at hread
        exact m.part a v h hread
    | inr b => cases h
  inj ab v v' h heq := by
    cases ab with
    | inl a => exact m.inj a v v' h (Sum.inl.inj heq)
    | inr b => cases h

/-- A member of the other. -/
def inr (m : t.Member leaf) (hne : m.name ≠ name) :
    (Shape.either name tag s t htag).Member leaf where
  name := m.name
  mem := List.mem_append_right _ m.mem
  declared
    | .inl _ => False
    | .inr b => m.declared b
  get
    | .inl _ => none
    | .inr b => m.get b
  put
    | .inl a, _ => .inl a
    | .inr b, v => .inr (m.put b v)
  member_eq ab h := by
    cases ab with
    | inl a => cases h
    | inr b => exact (if_pos m.mem).trans (m.member_eq b h)
  read_update ab j h := by
    cases ab with
    | inl a => cases h
    | inr b =>
        have htold : Function.update (oneOf s t (.inr b)) m.name (some j) name ≠
            some (.string tag) := by
          rw [Function.update_of_ne hne.symm]
          exact fun heq => htag.right b ((if_pos htag.right_mem).symm.trans heq)
        have hright : t.read (Function.update (oneOf s t (.inr b)) m.name (some j)) =
            t.read (Function.update (t.member b) m.name (some j)) :=
          read_update_congr t fun k hk => if_pos hk
        simp only [Shape.either, readEither_inr htag]
        rw [readEither, if_neg htold, hright, m.read_update b j h, Option.map_bind]
        rfl
  part ab v h hread := by
    cases ab with
    | inl a => cases h
    | inr b =>
        simp only [Shape.either, readEither_inr htag, Option.isSome_map] at hread
        exact m.part b v h hread
  inj ab v v' h heq := by
    cases ab with
    | inl a => cases h
    | inr b => exact m.inj b v v' h (Sum.inr.inj heq)

end Either

/-- A member of a record told as another type. -/
def iso {f : α → β} {g : β → α} {hfg : ∀ b, f (g b) = b} {hgf : ∀ a, g (f a) = a}
    (m : s.Member leaf) : (s.iso f g hfg hgf).Member leaf where
  name := m.name
  mem := m.mem
  declared b := m.declared (g b)
  get b := m.get (g b)
  put b v := f (m.put (g b) v)
  member_eq b h := m.member_eq (g b) h
  read_update b j h := by
    simp only [Shape.iso, m.read_update (g b) j h, Option.map_bind, hgf]
    rfl
  part b v h hread := by
    simp only [Shape.iso, hgf, Option.isSome_map] at hread
    exact m.part (g b) v h hread
  inj b v v' h heq := m.inj (g b) v v' h (Function.LeftInverse.injective hgf heq)

end Shape.Member

namespace Place

variable {α β γ : Type}

/-- Replacing a field leaves the others. -/
theorem lookup_map_of_ne {fields : Fields} {token k : String} {w : Value} (hk : k ≠ token) :
    (fields.map fun field => if field.1 = token then (token, w) else field).lookup k =
      fields.lookup k := by
  induction fields with
  | nil => rfl
  | cons field rest ih =>
      obtain ⟨name, u⟩ := field
      rw [List.map_cons]
      by_cases hname : name = token
      · subst hname
        rw [if_pos rfl, List.lookup_cons, List.lookup_cons, beq_eq_false_iff_ne.mpr hk]
        exact ih
      · rw [if_neg hname, List.lookup_cons, List.lookup_cons, ih]

theorem lookup_map_replace {fields : Fields} {token : String} {w v : Value}
    (hfound : fields.lookup token = some v) :
    (fun k => (fields.map fun field => if field.1 = token then (token, w) else field).lookup k) =
      Function.update (fun k => fields.lookup k) token (some w) := by
  funext k
  induction fields with
  | nil => cases hfound
  | cons field rest ih =>
      obtain ⟨name, u⟩ := field
      rw [List.map_cons]
      by_cases hname : name = token
      · subst hname
        rw [if_pos rfl]
        by_cases hk : k = name
        · rw [hk, Function.update_self, List.lookup_cons_self]
        · rw [Function.update_of_ne hk, List.lookup_cons, List.lookup_cons,
            beq_eq_false_iff_ne.mpr hk]
          exact lookup_map_of_ne hk
      · have hfound' : rest.lookup token = some v := by
          rwa [List.lookup_cons, beq_eq_false_iff_ne.mpr (Ne.symm hname)] at hfound
        have hrest := ih hfound'
        rw [if_neg hname]
        by_cases hk : k = token
        · rw [hk, Function.update_self] at hrest ⊢
          rw [List.lookup_cons, beq_eq_false_iff_ne.mpr (Ne.symm hname)]
          exact hrest
        · rw [Function.update_of_ne hk] at hrest ⊢
          rw [List.lookup_cons, List.lookup_cons]
          split
          · rfl
          · exact hrest

theorem decode_object (s : Shape α) (fields : Fields) :
    (Codec.record s).decode (.object fields) = s.read fun k => fields.lookup k := rfl

/-- A member of a record. -/
def member {s : Shape α} {leaf : Codec β} (m : s.Member leaf) : Place (Codec.record s) leaf where
  path := [m.name]
  declared := m.declared
  get := m.get
  put := m.put
  law f a h := by
    have hlookup : (s.fields a).lookup m.name = (m.get a).map leaf.encode :=
      (s.lookup_fields a m.mem).trans (m.member_eq a h)
    have hmodify : Value.modify f [m.name] (.object (s.fields a)) =
        ((s.fields a).lookup m.name).bind fun w => (f w).map fun w' => .object
          ((s.fields a).map fun field => if field.1 = m.name then (m.name, w') else field) := by
      rw [Value.modify]
      cases (s.fields a).lookup m.name <;> rfl
    have hkeep : ∀ v, (Codec.record s).decode ((Codec.record s).encode (m.put a v)) =
        s.read (s.member (m.put a v)) := fun v => s.read_fields _
    have hencode : (Codec.record s).encode a = .object (s.fields a) := rfl
    simp only [hkeep]
    rw [hencode, hmodify]
    cases hget : m.get a with
    | none =>
        rw [hget] at hlookup
        rw [hlookup]
        rfl
    | some b =>
        rw [hget] at hlookup
        rw [hlookup]
        simp only [Option.map_some, Option.bind_some, Option.map_map]
        refine congrArg (Option.map · (f (leaf.encode b))) (funext fun j => ?_)
        rw [Function.comp_apply, decode_object, lookup_map_replace hlookup,
          ← m.read_update a j (by rw [hget]; rfl)]
        refine s.read_congr fun k hk => ?_
        by_cases hname : k = m.name
        · rw [hname, Function.update_self, Function.update_self]
        · rw [Function.update_of_ne hname, Function.update_of_ne hname]
          exact s.lookup_fields a hk
  part a v h hread := by
    refine m.part a v h ?_
    rwa [show (Codec.record s).decode ((Codec.record s).encode (m.put a v)) =
      s.read (s.member (m.put a v)) from s.read_fields _] at hread
  inj := m.inj

/-- The first of two. -/
def first (c : Codec α) (d : Codec β) : Place (c.pair d) c where
  path := ["0"]
  declared _ := True
  get ab := some ab.1
  put ab v := (v, ab.2)
  law f ab _ := by
    have hmodify : Value.modify f ["0"] ((c.pair d).encode ab) =
        (f (c.encode ab.1)).map fun j => .array [j, d.encode ab.2] := rfl
    rw [hmodify, Option.map_map]
    refine congrArg (Option.map · (f (c.encode ab.1))) (funext fun j => ?_)
    show (c.decode j).bind _ = (c.decode j).bind _
    cases h : c.decode j with
    | none => rfl
    | some v =>
        simp only [Codec.pair, Option.bind_some, c.stable j v h]
  part ab v _ h := by
    cases hread : c.decode (c.encode v) with
    | some v' => rfl
    | none =>
        rw [Codec.pair] at h
        simp only [hread, Option.bind_none] at h
        cases h
  inj _ _ _ _ heq := (Prod.mk.inj heq).1

/-- The second of two. -/
def second (c : Codec α) (d : Codec β) : Place (c.pair d) d where
  path := ["1"]
  declared _ := True
  get ab := some ab.2
  put ab v := (ab.1, v)
  law f ab _ := by
    have hmodify : Value.modify f ["1"] ((c.pair d).encode ab) =
        (f (d.encode ab.2)).map fun j => .array [c.encode ab.1, j] := rfl
    rw [hmodify, Option.map_map]
    refine congrArg (Option.map · (f (d.encode ab.2))) (funext fun j => ?_)
    show (c.decode (c.encode ab.1)).bind _ = (d.decode j).bind _
    cases h : d.decode j with
    | none => cases c.decode (c.encode ab.1) <;> rfl
    | some v =>
        simp only [Codec.pair, Option.bind_some, d.stable j v h]
  part ab v _ h := by
    cases hread : d.decode (d.encode v) with
    | some v' => rfl
    | none =>
        rw [Codec.pair] at h
        simp only [hread, Option.map_none, Option.bind_fun_none] at h
        cases h
  inj _ _ _ _ heq := (Prod.mk.inj heq).2

/-- An item of a list. -/
def item (c : Codec α) (i : ℕ) : Place c.list c where
  path := [toString i]
  declared as := i < as.length ∧ i < 2 ^ 64
  get as := as[i]?
  put as v := as.set i v
  law f as h := by
    have hmodify : Value.modify f [toString i] (c.list.encode as) =
        (as[i]?).bind fun a => (f (c.encode a)).map fun j =>
          .array ((as.map c.encode).set i j) := by
      show (parseIndex (toString i)).bind _ = _
      rw [parseIndex_toString h.2, Option.bind_some, List.getElem?_map]
      cases as[i]? <;> rfl
    rw [hmodify, List.getElem?_eq_getElem h.1, Option.bind_some, Option.bind_some, Option.map_map]
    refine congrArg (Option.map · (f (c.encode as[i]))) (funext fun j => ?_)
    show ((as.map c.encode).set i j).mapM c.decode = _
    cases hread : c.decode j with
    | none =>
        refine mapM_eq_none (List.mem_set ?_ _) hread
        rw [List.length_map]
        exact h.1
    | some v =>
        refine mapM_congr_map ?_
        rw [List.map_set, List.map_set, List.map_set, hread, c.stable j v hread]
  part as v h hread := by
    have hlt : i < as.length := by
      rcases Nat.lt_or_ge i as.length with hlt | hge
      · exact hlt
      · rw [List.getElem?_eq_none hge] at h
        cases h
    cases hv : c.decode (c.encode v) with
    | some v' => rfl
    | none =>
        have hnone : c.list.decode (c.list.encode (as.set i v)) = none := by
          refine mapM_eq_none (List.mem_map.mpr ⟨v, List.mem_set hlt _, rfl⟩) hv
        rw [hnone] at hread
        cases hread
  inj as v v' h heq := by
    have hlt : i < as.length := (List.getElem?_eq_some_iff.mp (Option.eq_some_of_isSome h)).1
    have hitem := congrArg (fun bs : List α => bs[i]?) heq
    simpa [hlt] using hitem

section Within

variable {mid : Codec β} {c : Codec α} {leaf : Codec γ}

/-- A place in a type whose values are checked when they are read. -/
def refine (p : Place c leaf) (ok : α → Bool) : Place (c.refine ok) leaf where
  path := p.path
  declared := p.declared
  get := p.get
  put := p.put
  law f a h := by
    have hlaw := congrArg (Option.map (Option.filter ok)) (p.law f a h)
    rw [Option.map_map] at hlaw
    refine hlaw.trans ?_
    cases p.get a with
    | none => rfl
    | some b =>
        simp only [Option.bind_some, Option.map_map]
        refine congrArg (Option.map · (f (leaf.encode b))) (funext fun j => ?_)
        rw [Function.comp_apply]
        cases leaf.decode j <;> rfl
  part a v h hread := by
    refine p.part a v h ?_
    obtain ⟨b, hb⟩ := Option.isSome_iff_exists.mp hread
    obtain ⟨hb, -⟩ := Option.filter_eq_some_iff.mp hb
    exact Option.isSome_iff_exists.mpr ⟨b, hb⟩
  inj := p.inj

/-- A place in a type told as another. -/
def iso {δ : Type} {f : α → δ} {g : δ → α} {hfg : ∀ b, f (g b) = b} {hgf : ∀ a, g (f a) = a}
    (p : Place c leaf) : Place (c.iso f g hfg hgf) leaf where
  path := p.path
  declared b := p.declared (g b)
  get b := p.get (g b)
  put b v := f (p.put (g b) v)
  law h b hb := by
    have hlaw := congrArg (Option.map (Option.map f)) (p.law h (g b) hb)
    rw [Option.map_map] at hlaw
    refine hlaw.trans ?_
    cases p.get (g b) with
    | none => rfl
    | some x =>
        simp only [Option.bind_some, Option.map_map]
        refine congrArg (Option.map · (h (leaf.encode x))) (funext fun j => ?_)
        rw [Function.comp_apply]
        cases leaf.decode j with
        | none => rfl
        | some v => simp only [Codec.iso, hgf, Option.bind_some]
  part b v h hread := by
    refine p.part (g b) v h ?_
    simp only [Codec.iso, hgf, Option.isSome_map] at hread
    exact hread
  inj b v v' h heq := p.inj (g b) v v' h (Function.LeftInverse.injective hgf heq)

/-- A part that is written and read again leaves the whole. -/
theorem bind_part (p : Place c mid) {a : α} (h : (p.get a).isSome) (b : β) :
    ((mid.decode (mid.encode b)).bind fun v => c.decode (c.encode (p.put a v))) =
      c.decode (c.encode (p.put a b)) := by
  cases hread : mid.decode (mid.encode b) with
  | some v =>
      rw [mid.sound b v hread]
      rfl
  | none =>
      cases hwhole : c.decode (c.encode (p.put a b)) with
      | none => rfl
      | some a' =>
          have hpart := p.part a b h (by rw [hwhole]; rfl)
          rw [hread] at hpart
          cases hpart

/-- A place within a place. -/
def comp (p : Place c mid) (q : Place mid leaf) : Place c leaf where
  path := p.path ++ q.path
  declared a := p.declared a ∧ ∀ b, p.get a = some b → q.declared b
  get a := (p.get a).bind q.get
  put a v := ((p.get a).map fun b => p.put a (q.put b v)).getD a
  law f a h := by
    rw [Value.modify_append, p.law (Value.modify f q.path) a h.1]
    cases hget : p.get a with
    | none => rfl
    | some b =>
        have hwhole := bind_part p (a := a) (by rw [hget]; rfl)
        have hlaw := congrArg (Option.map fun read => read.bind fun v =>
          c.decode (c.encode (p.put a v))) (q.law f b (h.2 b hget))
        rw [Option.map_map] at hlaw
        refine hlaw.trans ?_
        simp only [Option.bind_some, Option.map_some, Option.getD_some]
        cases q.get b with
        | none => rfl
        | some x =>
            simp only [Option.bind_some, Option.map_map]
            refine congrArg (Option.map · (f (leaf.encode x))) (funext fun j => ?_)
            simp only [Function.comp_apply, Option.bind_assoc, hwhole]
  part a v h hread := by
    cases hget : p.get a with
    | none =>
        rw [hget] at h
        cases h
    | some b =>
        rw [hget] at h hread
        have hmid := p.part a (q.put b v) (by rw [hget]; rfl) hread
        exact q.part b v h hmid
  inj a v v' h heq := by
    cases hget : p.get a with
    | none =>
        rw [hget] at h
        cases h
    | some b =>
        rw [hget] at h heq
        exact q.inj b v v' h (p.inj a _ _ (by rw [hget]; rfl) heq)

/-- A place within one that may be empty. -/
def through {hmid : mid.Solid} (p : Place c (mid.option hmid)) (q : Place mid leaf)
    (hq : q.path ≠ []) : Place c leaf where
  path := p.path ++ q.path
  declared a := p.declared a ∧ ∀ b, p.get a = some (some b) → q.declared b
  get a := (p.get a).join.bind q.get
  put a v := ((p.get a).join.map fun b => p.put a (some (q.put b v))).getD a
  law f a h := by
    rw [Value.modify_append, p.law (Value.modify f q.path) a h.1]
    cases hget : p.get a with
    | none => rfl
    | some found =>
        have hwhole := bind_part p (a := a) (by rw [hget]; rfl)
        cases found with
        | none =>
            have hnull : Value.modify f q.path ((mid.option hmid).encode none) = none := by
              cases hpath : q.path with
              | nil => exact absurd hpath hq
              | cons token rest => rfl
            rw [Option.bind_some, hnull]
            rfl
        | some b =>
            -- what is within is not null, and is read as some part
            have hsome : ∀ j, Value.modify f q.path (mid.encode b) = some j →
                ((mid.option hmid).decode j).bind (fun v => c.decode (c.encode (p.put a v))) =
                  ((mid.decode j).map some).bind fun v => c.decode (c.encode (p.put a v)) := by
              intro j hj
              rw [mid.decode_option_of_ne hmid (Value.modify_ne_null hq hj)]
            have hlaw := congrArg (Option.map fun read => (read.map some).bind fun v =>
              c.decode (c.encode (p.put a v))) (q.law f b (h.2 b hget))
            rw [Option.map_map] at hlaw
            refine (Option.map_congr hsome).trans (hlaw.trans ?_)
            simp only [Option.join_some, Option.bind_some, Option.map_some, Option.getD_some]
            cases q.get b with
            | none => rfl
            | some x =>
                simp only [Option.bind_some, Option.map_map]
                refine congrArg (Option.map · (f (leaf.encode x))) (funext fun j => ?_)
                rw [Function.comp_apply]
                cases leaf.decode j with
                | none => rfl
                | some v =>
                    rw [Option.bind_some, Option.bind_some, ← hwhole (some (q.put b v)),
                      mid.decode_option_encode]
  part a v h hread := by
    cases hget : (p.get a).join with
    | none =>
        rw [hget] at h
        cases h
    | some b =>
        rw [hget] at h hread
        have hsome : p.get a = some (some b) := Option.join_eq_some_iff.mp hget
        have hmid := p.part a (some (q.put b v)) (by rw [hsome]; rfl) hread
        rw [mid.decode_option_encode, Option.isSome_map] at hmid
        exact q.part b v h hmid
  inj a v v' h heq := by
    cases hget : (p.get a).join with
    | none =>
        rw [hget] at h
        cases h
    | some b =>
        rw [hget] at h heq
        have hsome : p.get a = some (some b) := Option.join_eq_some_iff.mp hget
        exact q.inj b v v' h (Option.some.inj (p.inj a _ _ (by rw [hsome]; rfl) heq))

end Within

end Place

end Nazh
