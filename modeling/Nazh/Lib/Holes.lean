import Mathlib.Algebra.Ring.Nat
import Mathlib.Data.List.Basic
import Mathlib.Tactic.Common

/-!
# Texts with holes that are filled again and again

A text has holes in it, each of which begins where a key can be read and has a width; two of them do
not overlap. Some of the holes are filled, and what is then there may have holes of its own: what was
filled in has some, or is half of one. A second filling that was to fill holes of the first text
only does so exactly if it meets no others.

## Main definitions

* `HoleFinder` — where the holes of a text are.
* `HoleFinder.fill` — a text with some of its holes filled.
* `HoleFinder.passes` — a text that is carried through layers, each of which fills some holes.
* `HoleFinder.once` — a text whose holes are filled once, by one of the layers each.

## Main results

* `HoleFinder.parts_append_hole` — a hole stays one, whatever is around it.
* `HoleFinder.fill_fill_iff` — when a filling of a filled text is a filling of the text.
* `HoleFinder.passes_eq_once_iff` — when the layers together fill a text once.
-/

namespace Nazh.Lib

universe u v w

variable {α : Type u} {β : Type v} {κ : Type w}

/-- How holes are read: the key of the hole that a text begins with, and the width of a hole. What
stands behind a hole does not matter, and no hole begins in another one. -/
structure HoleFinder (β : Type v) (κ : Type w) where
  find : List β → Option κ
  width : κ → ℕ
  width_pos : ∀ k, 0 < width k
  width_le : ∀ {s k}, find s = some k → width k ≤ s.length
  append : ∀ {s k} (t), find s = some k → find (s ++ t) = some k
  of_append : ∀ {s t k}, find (s ++ t) = some k → width k ≤ s.length → find s = some k
  apart : ∀ {s k i k'}, find s = some k → find (s.drop i) = some k' → 0 < i → width k ≤ i

/-- A part of a text: a mark of its own, or a hole with the marks it is made of. -/
inductive TextPart (α : Type u) (κ : Type w)
  | mark (a : α)
  | hole (key : κ) (marks : List α)

namespace TextPart

def marks : TextPart α κ → List α
  | mark a => [a]
  | hole _ marks => marks

def key? : TextPart α κ → Option κ
  | mark _ => none
  | hole key _ => some key

/-- A part, filled if there is something for its key. -/
def fill (f : κ → Option (List α)) : TextPart α κ → List α
  | mark a => [a]
  | hole key marks => (f key).getD marks

end TextPart

namespace HoleFinder

variable (H : HoleFinder β κ) (read : α → β)

/-- The parts of a text, after as many marks of the last hole as are left. -/
def parts : ℕ → List α → List (TextPart α κ)
  | _, [] => []
  | skip + 1, _ :: rest => parts skip rest
  | 0, a :: rest =>
      match H.find ((a :: rest).map read) with
      | none => .mark a :: parts 0 rest
      | some key => .hole key ((a :: rest).take (H.width key)) :: parts (H.width key - 1) rest

/-- The keys of the holes of a text. -/
def keys (s : List α) : List κ := (H.parts read 0 s).filterMap TextPart.key?

/-- A text with those holes filled for which there is something. -/
def fill (f : κ → Option (List α)) (s : List α) : List α :=
  (H.parts read 0 s).flatMap (TextPart.fill f)

/-- The holes among the parts are holes. -/
def Sound (ps : List (TextPart α κ)) : Prop :=
  ∀ key marks, TextPart.hole key marks ∈ ps →
    H.find (marks.map read) = some key ∧ marks.length = H.width key

section Parts

variable {H read} {s t x y : List α} {f : κ → Option (List α)}

theorem parts_skip (skip : ℕ) (s : List α) : H.parts read skip s = H.parts read 0 (s.drop skip) := by
  induction s generalizing skip with
  | nil => rw [List.drop_nil, parts, parts]
  | cons a rest ih =>
      cases skip with
      | zero => rfl
      | succ skip => rw [parts, ih, List.drop_succ_cons]

theorem parts_of_none {a : α} (h : H.find ((a :: s).map read) = none) :
    H.parts read 0 (a :: s) = .mark a :: H.parts read 0 s := by
  rw [parts, h]

theorem parts_of_some {key : κ} (h : H.find (s.map read) = some key) :
    H.parts read 0 s = .hole key (s.take (H.width key)) :: H.parts read 0 (s.drop (H.width key)) := by
  have hpos := H.width_pos key
  cases s with
  | nil => exact absurd (H.width_le h) (Nat.not_le_of_lt hpos)
  | cons a rest =>
      rw [parts, h]
      dsimp only
      rw [parts_skip]
      obtain ⟨n, hn⟩ := Nat.exists_eq_succ_of_ne_zero (Nat.pos_iff_ne_zero.mp hpos)
      rw [hn, Nat.succ_sub_one, List.drop_succ_cons]

variable (H read) in
/-- The parts of a text, one after another: an induction. -/
theorem parts_induction {p : List α → Prop} (nil : p [])
    (mark : ∀ a s, H.find ((a :: s).map read) = none → p s → p (a :: s))
    (hole : ∀ key s, H.find (s.map read) = some key → p (s.drop (H.width key)) → p s)
    (s : List α) : p s := by
  induction hn : s.length using Nat.strongRecOn generalizing s with
  | ind n ih =>
      cases hfind : H.find (s.map read) with
      | none =>
          cases s with
          | nil => exact nil
          | cons a rest => exact mark a rest hfind (ih _ (by simp [← hn]) rest rfl)
      | some key =>
          refine hole key s hfind (ih _ ?_ _ rfl)
          have hpos := H.width_pos key
          have hle := H.width_le hfind
          rw [List.length_map] at hle
          rw [List.length_drop, ← hn]
          omega

variable (H read) in
theorem flatMap_marks (s : List α) : (H.parts read 0 s).flatMap TextPart.marks = s := by
  induction s using parts_induction H read with
  | nil => rw [parts, List.flatMap_nil]
  | mark a s h ih =>
      rw [parts_of_none h, List.flatMap_cons, ih]
      rfl
  | hole key s h ih =>
      rw [parts_of_some h, List.flatMap_cons, ih]
      exact List.take_append_drop _ s

variable (H read) in
theorem sound_parts (s : List α) : H.Sound read (H.parts read 0 s) := by
  induction s using parts_induction H read with
  | nil =>
      intro key marks h
      rw [parts] at h
      cases h
  | mark a s h ih =>
      intro key marks hmem
      rw [parts_of_none h] at hmem
      rcases List.mem_cons.mp hmem with heq | hmem
      · cases heq
      · exact ih key marks hmem
  | hole key s h ih =>
      intro key' marks hmem
      rw [parts_of_some h] at hmem
      rcases List.mem_cons.mp hmem with heq | hmem
      · cases heq
        have hle := H.width_le h
        rw [List.length_map] at hle
        have hlen : (s.take (H.width key)).length = H.width key := List.length_take_of_le hle
        refine ⟨H.of_append (t := (s.drop (H.width key)).map read) ?_ ?_, hlen⟩
        · rw [← List.map_append, List.take_append_drop]
          exact h
        · rw [List.length_map]
          exact Nat.le_of_eq hlen.symm
      · exact ih key' marks hmem

/-- A hole stays one, whatever is around it. -/
theorem parts_append_hole {key : κ} {marks : List α} (h : H.find (marks.map read) = some key)
    (hlen : marks.length = H.width key) (x y : List α) :
    H.parts read 0 (x ++ (marks ++ y)) =
      H.parts read 0 x ++ .hole key marks :: H.parts read 0 y := by
  have hhole : H.find ((marks ++ y).map read) = some key := by
    rw [List.map_append]
    exact H.append _ h
  induction x using parts_induction H read with
  | nil =>
      rw [List.nil_append, parts_of_some hhole, ← hlen, List.take_left, List.drop_left]
      rfl
  | mark a x hnone ih =>
      rw [List.cons_append]
      cases hfind : H.find ((a :: (x ++ (marks ++ y))).map read) with
      | none => rw [parts_of_none hfind, parts_of_none hnone, ih, List.cons_append]
      | some key' =>
          rw [← List.cons_append] at hfind
          -- a hole that begins before another one ends before it
          have hnext : H.find ((((a :: x) ++ (marks ++ y)).map read).drop (a :: x).length) =
              some key := by
            rwa [← List.map_drop, List.drop_left]
          have hwidth : H.width key' ≤ (a :: x).length := H.apart hfind hnext (Nat.succ_pos _)
          rw [List.map_append] at hfind
          have hfound := H.of_append hfind (by rwa [List.length_map])
          rw [hnone] at hfound
          cases hfound
  | hole key' x hfound ih =>
      have hle := H.width_le hfound
      rw [List.length_map] at hle
      have hfind : H.find ((x ++ (marks ++ y)).map read) = some key' := by
        rw [List.map_append]
        exact H.append _ hfound
      rw [parts_of_some hfind, parts_of_some hfound, List.take_append_of_le_length hle,
        List.drop_append_of_le_length hle, ih, List.cons_append]

theorem keys_append_hole {key : κ} {marks : List α} (h : H.find (marks.map read) = some key)
    (hlen : marks.length = H.width key) (x y : List α) :
    H.keys read (x ++ (marks ++ y)) = H.keys read x ++ key :: H.keys read y := by
  rw [keys, parts_append_hole h hlen, List.filterMap_append, List.filterMap_cons]
  rfl

theorem fill_append_hole {key : κ} {marks : List α} (h : H.find (marks.map read) = some key)
    (hlen : marks.length = H.width key) (x y : List α) :
    H.fill read f (x ++ (marks ++ y)) = H.fill read f x ++ ((f key).getD marks ++ H.fill read f y) := by
  rw [fill, parts_append_hole h hlen, List.flatMap_append, List.flatMap_cons]
  rfl

/-- A text is left as it is when there is nothing for its holes. -/
theorem fill_eq_self (h : ∀ key ∈ H.keys read s, f key = none) : H.fill read f s = s := by
  have hparts : ∀ part ∈ H.parts read 0 s, part.fill f = part.marks := by
    intro part hpart
    cases part with
    | mark a => rfl
    | hole key marks =>
        have hnone := h key (List.mem_filterMap.mpr ⟨_, hpart, rfl⟩)
        simp only [TextPart.fill, TextPart.marks, hnone, Option.getD_none]
  rw [fill, List.flatMap_congr hparts, flatMap_marks]

theorem fill_eq_self_of_filter
    (h : (H.keys read s).filter (fun key => (f key).isSome) = []) : H.fill read f s = s :=
  fill_eq_self fun key hkey =>
    Option.not_isSome_iff_eq_none.mp (List.filter_eq_nil_iff.mp h key hkey)

/-- Reading the marks before or after the filling is the same. -/
theorem map_fill (f : κ → Option (List α)) (s : List α) :
    (H.fill read f s).map read = H.fill id (fun key => (f key).map (List.map read)) (s.map read) := by
  induction s using parts_induction H read with
  | nil => rfl
  | mark a s h ih =>
      have h' : H.find ((read a :: s.map read).map id) = none := by
        rwa [List.map_id, ← List.map_cons]
      rw [fill, parts_of_none h, List.flatMap_cons, List.map_append, ← fill, ih, List.map_cons, fill,
        fill, parts_of_none h', List.flatMap_cons]
      rfl
  | hole key s h ih =>
      have h' : H.find ((s.map read).map id) = some key := by rwa [List.map_id]
      rw [fill, parts_of_some h, List.flatMap_cons, List.map_append, ← fill, ih, fill, fill,
        parts_of_some h', List.flatMap_cons, List.map_drop]
      congr 1
      rw [TextPart.fill, TextPart.fill, ← List.map_take]
      cases f key <;> rfl

theorem keys_map (s : List α) : H.keys id (s.map read) = H.keys read s := by
  induction s using parts_induction H read with
  | nil => rfl
  | mark a s h ih =>
      have h' : H.find ((read a :: s.map read).map id) = none := by
        rwa [List.map_id, ← List.map_cons]
      rw [List.map_cons, keys, parts_of_none h', keys, parts_of_none h, List.filterMap_cons,
        List.filterMap_cons]
      exact ih
  | hole key s h ih =>
      have h' : H.find ((s.map read).map id) = some key := by rwa [List.map_id]
      rw [keys, parts_of_some h', keys, parts_of_some h, List.filterMap_cons, List.filterMap_cons,
        ← List.map_drop]
      exact congrArg (key :: ·) ih

end Parts

/-! ## Filling what was filled -/

section Refill

variable {H read} {s x : List α} {ps : List (TextPart α κ)} {f own answer : κ → Option (List α)}

/-- What is left for a second filling, which finds something for more keys than it should. -/
def leftFor (f own : κ → Option (List α)) (key : κ) : Bool := (f key).isNone && (own key).isSome

/-- The second filling finds the holes that are left for it. -/
theorem sublist_answered (hown : ∀ key text, own key = some text → answer key = some text)
    (hps : H.Sound read ps) (x : List α) :
    ((ps.filterMap TextPart.key?).filter (leftFor f own)).Sublist
      ((H.keys read (x ++ ps.flatMap (TextPart.fill f))).filter fun key => (answer key).isSome) := by
  induction ps generalizing x with
  | nil => exact List.nil_sublist _
  | cons part ps ih =>
      have hrest : H.Sound read ps := fun key marks h => hps key marks (List.mem_cons_of_mem _ h)
      rw [List.flatMap_cons, List.filterMap_cons]
      cases part with
      | mark a =>
          rw [← List.append_assoc]
          exact ih hrest _
      | hole key marks =>
          obtain ⟨hfind, hlen⟩ := hps key marks List.mem_cons_self
          dsimp only [TextPart.key?]
          rw [TextPart.fill]
          cases hf : f key with
          | some text =>
              rw [List.filter_cons_of_neg (by simp [leftFor, hf]), ← List.append_assoc]
              exact ih hrest _
          | none =>
              rw [Option.getD_none, keys_append_hole hfind hlen, List.filter_append]
              refine (List.Sublist.trans ?_ (List.sublist_append_right _ _))
              have hnext := ih hrest []
              rw [List.nil_append] at hnext
              cases hkey : own key with
              | none =>
                  rw [List.filter_cons_of_neg (by simp [leftFor, hkey])]
                  exact hnext.trans (List.Sublist.filter _ (List.sublist_cons_self _ _))
              | some text =>
                  rw [List.filter_cons_of_pos (by simp [leftFor, hf, hkey]),
                    List.filter_cons_of_pos (by simp [hown key text hkey])]
                  exact hnext.cons_cons key

/-- If it finds no others, it fills the holes that are left for it. -/
theorem fill_of_length_eq (hown : ∀ key text, own key = some text → answer key = some text)
    (hps : H.Sound read ps) (x : List α)
    (h : ((H.keys read (x ++ ps.flatMap (TextPart.fill f))).filter
        fun key => (answer key).isSome).length =
      ((ps.filterMap TextPart.key?).filter (leftFor f own)).length) :
    H.fill read answer (x ++ ps.flatMap (TextPart.fill f)) =
      x ++ ps.flatMap (TextPart.fill fun key => (f key).or (own key)) := by
  induction ps generalizing x with
  | nil =>
      rw [List.flatMap_nil, List.flatMap_nil, List.append_nil] at *
      exact fill_eq_self_of_filter (List.eq_nil_of_length_eq_zero h)
  | cons part ps ih =>
      have hrest : H.Sound read ps := fun key marks h => hps key marks (List.mem_cons_of_mem _ h)
      rw [List.flatMap_cons, List.filterMap_cons] at h
      rw [List.flatMap_cons, List.flatMap_cons]
      cases part with
      | mark a =>
          rw [← List.append_assoc] at h
          rw [← List.append_assoc, ← List.append_assoc]
          exact ih hrest _ h
      | hole key marks =>
          obtain ⟨hfind, hlen⟩ := hps key marks List.mem_cons_self
          dsimp only [TextPart.key?] at h
          rw [TextPart.fill] at h
          rw [TextPart.fill, TextPart.fill]
          cases hf : f key with
          | some text =>
              rw [hf, List.filter_cons_of_neg (by simp [leftFor, hf]), ← List.append_assoc] at h
              rw [← List.append_assoc, ← List.append_assoc]
              exact ih hrest _ h
          | none =>
              rw [hf, Option.getD_none, keys_append_hole hfind hlen, List.filter_append,
                List.length_append, List.filter_cons, List.filter_cons] at h
              rw [Option.getD_none, Option.none_or, fill_append_hole hfind hlen]
              have hle := (sublist_answered (f := f) hown hrest []).length_le
              rw [List.nil_append] at hle
              have hnext := ih hrest []
              rw [List.nil_append, List.nil_append] at hnext
              have hx : (H.keys read x).filter (fun key => (answer key).isSome) = [] →
                  H.fill read answer x = x := fill_eq_self_of_filter
              cases hkey : own key with
              | some text =>
                  have hanswer := hown key text hkey
                  have hsome : (answer key).isSome = true := by rw [hanswer, Option.isSome_some]
                  have hleft : leftFor f own key = true := by simp [leftFor, hf, hkey]
                  rw [if_pos hsome, if_pos hleft, List.length_cons, List.length_cons] at h
                  rw [hx (List.eq_nil_of_length_eq_zero (by omega)), hnext (by omega), hanswer]
              | none =>
                  have hleft : ¬ leftFor f own key = true := by simp [leftFor, hkey]
                  have hnone : ¬ (answer key).isSome = true := by
                    intro hsome
                    rw [if_pos hsome, if_neg hleft, List.length_cons] at h
                    omega
                  have hanswer : answer key = none := Option.not_isSome_iff_eq_none.mp hnone
                  rw [if_neg hnone, if_neg hleft] at h
                  rw [hx (List.eq_nil_of_length_eq_zero (by omega)), hnext (by omega), hanswer]

variable (H read) in
/-- Of what was there, a filling takes away the holes that it fills. -/
theorem countP_fill {old : α → Bool} (hs : ∀ a ∈ s, old a = true)
    (hnew : ∀ key text, answer key = some text → ∀ a ∈ text, old a = false) :
    (H.fill read answer s).countP old +
      (((H.keys read s).filter fun key => (answer key).isSome).map H.width).sum = s.length := by
  induction s using parts_induction H read with
  | nil => rfl
  | mark a s h ih =>
      obtain ⟨ha, hs⟩ := List.forall_mem_cons.mp hs
      have hrest := ih hs
      rw [fill, keys] at hrest
      rw [fill, keys, parts_of_none h, List.flatMap_cons, List.filterMap_cons, TextPart.fill,
        List.singleton_append, List.countP_cons_of_pos ha, List.length_cons]
      dsimp only [TextPart.key?]
      omega
  | hole key s h ih =>
      have hrest := ih fun a ha => hs a (List.mem_of_mem_drop ha)
      have hle := H.width_le h
      rw [List.length_map] at hle
      rw [fill, keys, List.length_drop] at hrest
      rw [fill, keys, parts_of_some h, List.flatMap_cons, List.filterMap_cons, TextPart.fill,
        List.countP_append]
      dsimp only [TextPart.key?]
      cases hkey : answer key with
      | none =>
          have hkept : (s.take (H.width key)).countP old = H.width key := by
            rw [List.countP_eq_length.mpr fun a ha => hs a (List.mem_of_mem_take ha),
              List.length_take_of_le hle]
          rw [Option.getD_none, hkept, List.filter_cons_of_neg (by simp [hkey])]
          omega
      | some text =>
          have hgone : text.countP old = 0 :=
            List.countP_eq_zero.mpr fun a ha => Bool.eq_false_iff.mp (hnew key text hkey a ha)
          rw [Option.getD_some, hgone, List.filter_cons_of_pos (by simp [hkey]), List.map_cons,
            List.sum_cons]
          omega

/-- Of what a first filling leaves, the holes that are left for a second one are taken away. -/
theorem countP_refill {old : α → Bool} (hps : H.Sound read ps)
    (hmarks : ∀ part ∈ ps, ∀ a ∈ part.marks, old a = true)
    (hf : ∀ key text, f key = some text → ∀ a ∈ text, old a = true)
    (hnew : ∀ key text, own key = some text → ∀ a ∈ text, old a = false) :
    (ps.flatMap (TextPart.fill fun key => (f key).or (own key))).countP old +
        (((ps.filterMap TextPart.key?).filter (leftFor f own)).map H.width).sum =
      (ps.flatMap (TextPart.fill f)).length := by
  induction ps with
  | nil => rfl
  | cons part ps ih =>
      obtain ⟨hpart, hrest⟩ := List.forall_mem_cons.mp hmarks
      have hnext := ih (fun key marks h => hps key marks (List.mem_cons_of_mem _ h)) hrest
      rw [List.flatMap_cons, List.flatMap_cons, List.filterMap_cons, List.countP_append,
        List.length_append]
      cases part with
      | mark a =>
          have ha : old a = true := hpart a (List.mem_singleton_self a)
          rw [TextPart.fill, TextPart.fill, List.countP_singleton, if_pos ha, List.length_singleton]
          dsimp only [TextPart.key?]
          omega
      | hole key marks =>
          obtain ⟨-, hlen⟩ := hps key marks List.mem_cons_self
          dsimp only [TextPart.key?, TextPart.marks] at hpart ⊢
          rw [TextPart.fill, TextPart.fill]
          cases hkey : f key with
          | some text =>
              rw [Option.some_or, Option.getD_some, List.countP_eq_length.mpr (hf key text hkey),
                List.filter_cons_of_neg (by simp [leftFor, hkey])]
              omega
          | none =>
              rw [Option.none_or, Option.getD_none, hlen]
              cases hkey' : own key with
              | none =>
                  rw [Option.getD_none, List.countP_eq_length.mpr hpart, hlen,
                    List.filter_cons_of_neg (by simp [leftFor, hkey'])]
                  omega
              | some text =>
                  have hgone : text.countP old = 0 :=
                    List.countP_eq_zero.mpr fun a ha => Bool.eq_false_iff.mp (hnew key text hkey' a ha)
                  rw [Option.getD_some, hgone, List.filter_cons_of_pos (by simp [leftFor, hkey, hkey']),
                    List.map_cons, List.sum_cons]
                  omega

/-- A part of a list that weighs what the list weighs is the list. -/
theorem eq_of_sum_width_eq {ks ks' : List κ} (h : ks.Sublist ks')
    (hsum : (ks.map H.width).sum = (ks'.map H.width).sum) : ks = ks' := by
  obtain ⟨rest, hperm⟩ := h.exists_perm_append
  have hrest : (rest.map H.width).sum = 0 := by
    have hall := (hperm.map H.width).sum_nat
    rw [List.map_append, List.sum_append] at hall
    omega
  have hnil : rest = [] := by
    cases rest with
    | nil => rfl
    | cons key rest =>
        have hpos := H.width_pos key
        rw [List.map_cons, List.sum_cons] at hrest
        omega
  rw [hnil, List.append_nil] at hperm
  exact h.eq_of_length hperm.length_eq.symm

/-- A filling of a filled text, with marks that are told from those before, is the filling of the text
with both exactly if it meets no other holes than those that are left for it. -/
theorem fill_fill_iff (old : α → Bool)
    (hown : ∀ key text, own key = some text → answer key = some text)
    (hs : ∀ a ∈ s, old a = true) (hf : ∀ key text, f key = some text → ∀ a ∈ text, old a = true)
    (hnew : ∀ key text, answer key = some text → ∀ a ∈ text, old a = false) :
    H.fill read answer (H.fill read f s) = H.fill read (fun key => (f key).or (own key)) s ↔
      (H.keys read (H.fill read f s)).filter (fun key => (answer key).isSome) =
        (H.keys read s).filter (leftFor f own) := by
  have hps := sound_parts H read s
  have hmarks : ∀ part ∈ H.parts read 0 s, ∀ a ∈ part.marks, old a = true := by
    intro part hpart a ha
    rw [← flatMap_marks H read s] at hs
    exact hs a (List.mem_flatMap.mpr ⟨part, hpart, ha⟩)
  have hfilled : ∀ a ∈ H.fill read f s, old a = true := by
    intro a ha
    obtain ⟨part, hpart, ha⟩ := List.mem_flatMap.mp ha
    cases part with
    | mark b => exact hmarks _ hpart a ha
    | hole key marks =>
        rw [TextPart.fill] at ha
        cases hkey : f key with
        | none => exact hmarks _ hpart a (by rwa [hkey] at ha)
        | some text => exact hf key text hkey a (by rwa [hkey] at ha)
  constructor
  · intro heq
    have hleft := countP_fill H read hfilled hnew
    have hright := countP_refill hps hmarks hf fun key text h => hnew key text (hown key text h)
    rw [heq] at hleft
    refine (eq_of_sum_width_eq (H := H) (sublist_answered (f := f) hown hps []) ?_).symm
    rw [List.nil_append, ← fill]
    rw [← fill, ← fill] at hright
    rw [keys] at hleft ⊢
    omega
  · intro heq
    have hfill := fill_of_length_eq (f := f) hown hps []
    rw [List.nil_append, List.nil_append, ← fill, ← fill] at hfill
    exact hfill (congrArg List.length heq)

end Refill

/-! ## Layer by layer -/

/-- A layer that texts are carried through: what it has of its own for a key, and what it fills in. -/
structure Layer (β : Type v) (κ : Type w) where
  own : κ → Option (List β)
  answer : κ → Option (List β)
  answer_of_own : ∀ key text, own key = some text → answer key = some text

/-- A text that is marked with the number of the layer that it comes from. -/
def sourced (n : ℕ) (text : List β) : List (β × ℕ) := text.map fun b => (b, n)

/-- What a text becomes when it is carried through layers, the last one first. -/
def passes : List (Layer β κ) → List β → List (β × ℕ)
  | [], s => sourced 0 s
  | layer :: inner, s =>
      H.fill Prod.fst (fun key => (layer.answer key).map (sourced (inner.length + 1)))
        (passes inner s)

/-- What the last of the layers that have something of their own for a key has for it. -/
def innermost : List (Layer β κ) → κ → Option (List β)
  | [], _ => none
  | layer :: inner, key => (innermost inner key).or (layer.own key)

/-- The same, marked with the layer. -/
def innermostSourced : List (Layer β κ) → κ → Option (List (β × ℕ))
  | [], _ => none
  | layer :: inner, key =>
      (innermostSourced inner key).or ((layer.own key).map (sourced (inner.length + 1)))

/-- A text whose holes are filled once, each by the last layer that has something for it. -/
def once (layers : List (Layer β κ)) (s : List β) : List (β × ℕ) :=
  H.fill Prod.fst (innermostSourced layers) (sourced 0 s)

/-- A layer meets no other holes than those of the text that the layers before it have left for it. -/
def MeetsOnly (layer : Layer β κ) (inner : List (Layer β κ)) (s : List β) : Prop :=
  (H.keys id (H.fill id (innermost inner) s)).filter (fun key => (layer.answer key).isSome) =
    (H.keys id s).filter (leftFor (innermost inner) layer.own)

section Layers

variable {H} {layer : Layer β κ} {inner layers : List (Layer β κ)} {s : List β} {key : κ}

theorem map_fst_sourced (n : ℕ) (text : List β) : (sourced n text).map Prod.fst = text := by
  rw [sourced, List.map_map]
  exact List.map_id text

theorem innermostSourced_map (layers : List (Layer β κ)) (key : κ) :
    (innermostSourced layers key).map (List.map Prod.fst) = innermost layers key := by
  induction layers with
  | nil => rfl
  | cons layer inner ih =>
      rw [innermostSourced, innermost, Option.map_or, ih, Option.map_map]
      congr 1
      cases layer.own key with
      | none => rfl
      | some text => exact congrArg some (map_fst_sourced _ text)

theorem map_fst_once (layers : List (Layer β κ)) (s : List β) :
    (H.once layers s).map Prod.fst = H.fill id (innermost layers) s := by
  rw [once, map_fill, map_fst_sourced]
  congr 1
  exact funext fun key => innermostSourced_map layers key

theorem snd_le_of_innermostSourced {text : List (β × ℕ)}
    (h : innermostSourced layers key = some text) : ∀ a ∈ text, a.2 ≤ layers.length := by
  induction layers with
  | nil => cases h
  | cons layer inner ih =>
      rw [innermostSourced] at h
      rcases Option.or_eq_some_iff.mp h with hinner | ⟨-, hown⟩
      · exact fun a ha => Nat.le_succ_of_le (ih hinner a ha)
      · obtain ⟨own, -, rfl⟩ := Option.map_eq_some_iff.mp hown
        intro a ha
        obtain ⟨b, -, rfl⟩ := List.mem_map.mp ha
        exact Nat.le_refl _

/-- A text that was filled once so far is filled once after another layer exactly if that one meets
only the holes that are left for it. -/
theorem fill_once_iff :
    H.fill Prod.fst (fun key => (layer.answer key).map (sourced (inner.length + 1)))
        (H.once inner s) = H.once (layer :: inner) s ↔ H.MeetsOnly layer inner s := by
  have hleft : leftFor (innermostSourced inner)
      (fun key => (layer.own key).map (sourced (inner.length + 1))) =
        leftFor (innermost inner) layer.own := by
    funext key
    rw [leftFor, leftFor, ← innermostSourced_map, Option.isSome_map, Option.isNone_map]
  refine Iff.trans (fill_fill_iff (f := innermostSourced inner) (fun a => decide (a.2 ≤ inner.length))
    (fun key text h => ?_) (fun a ha => ?_) (fun key text h a ha => ?_)
    (fun key text h a ha => ?_)) ?_
  · obtain ⟨own, hown, rfl⟩ := Option.map_eq_some_iff.mp h
    rw [layer.answer_of_own key own hown, Option.map_some]
  · obtain ⟨b, -, rfl⟩ := List.mem_map.mp ha
    exact decide_eq_true (Nat.zero_le _)
  · exact decide_eq_true (snd_le_of_innermostSourced h a ha)
  · obtain ⟨answer, -, rfl⟩ := Option.map_eq_some_iff.mp h
    obtain ⟨b, -, rfl⟩ := List.mem_map.mp ha
    exact decide_eq_false (Nat.not_succ_le_self _)
  · rw [MeetsOnly, ← hleft, ← once, ← keys_map, ← keys_map (sourced 0 s), map_fst_once,
      map_fst_sourced]
    simp only [Option.isSome_map]

/-- A text is filled once by all layers up to each of them exactly if each meets only the holes that
are left for it. -/
theorem passes_eq_once_iff (layers : List (Layer β κ)) (s : List β) :
    (∀ inner, inner <:+ layers → H.passes inner s = H.once inner s) ↔
      ∀ layer inner, layer :: inner <:+ layers → H.MeetsOnly layer inner s := by
  induction layers with
  | nil =>
      refine iff_of_true ?_ fun layer inner h => absurd (List.eq_nil_of_suffix_nil h) (by simp)
      intro inner h
      rw [List.eq_nil_of_suffix_nil h, passes, once]
      exact (fill_eq_self fun _ _ => rfl).symm
  | cons layer rest ih =>
      have hstep : H.passes rest s = H.once rest s →
          (H.passes (layer :: rest) s = H.once (layer :: rest) s ↔ H.MeetsOnly layer rest s) := by
        intro hrest
        rw [passes, hrest]
        exact fill_once_iff
      constructor
      · intro hall l i hsuffix
        have hrest : ∀ inner, inner <:+ rest → H.passes inner s = H.once inner s :=
          fun inner h => hall inner (h.trans (List.suffix_cons layer rest))
        rcases List.suffix_cons_iff.mp hsuffix with heq | hsuffix
        · obtain ⟨rfl, rfl⟩ := List.cons.inj heq
          exact (hstep (hrest _ (List.suffix_refl _))).mp (hall _ (List.suffix_refl _))
        · exact ih.mp hrest l i hsuffix
      · intro hall inner hsuffix
        have hrest := ih.mpr fun l i h => hall l i (h.trans (List.suffix_cons layer rest))
        rcases List.suffix_cons_iff.mp hsuffix with rfl | hsuffix
        · exact (hstep (hrest _ (List.suffix_refl _))).mpr (hall _ _ (List.suffix_refl _))
        · exact hrest inner hsuffix

/-- What the layers make of a text, without the sources. -/
theorem map_fst_passes (layers : List (Layer β κ)) (s : List β) :
    (H.passes layers s).map Prod.fst =
      layers.foldr (fun layer text => H.fill id layer.answer text) s := by
  induction layers with
  | nil => exact map_fst_sourced 0 s
  | cons layer inner ih =>
      rw [passes, map_fill, ih, List.foldr_cons]
      congr 1
      funext key
      cases layer.answer key with
      | none => rfl
      | some text => exact congrArg some (map_fst_sourced _ text)

end Layers

end HoleFinder

end Nazh.Lib
