import Mathlib.Algebra.Order.BigOperators.Group.List
import Mathlib.Algebra.Order.Group.Nat
import Mathlib.Data.List.Basic
import Mathlib.Data.List.Chain
import Mathlib.Tactic.Common

/-!
# Templates

A template is a text with placeholders, each a name between an opening and a closing mark.
Filling a template puts a text in the place of every placeholder; what was put in is not
looked at again.

## Main definitions

* `cut` — split at the first place where a mark stands.
* `Delimiters.pieces` — what a template consists of.
* `Delimiters.render` — the template, filled.

## Main results

* `render_eq_iff` — where two fillings differ at one name, a template with that placeholder
  tells them apart.
-/

namespace Nazh.Lib

variable {α : Type*} [DecidableEq α]

/-- Split at the first place where the mark stands, without the mark. -/
def cut (mark : List α) : List α → Option (List α × List α)
  | [] => none
  | c :: s =>
      if mark <+: c :: s then some ([], (c :: s).drop mark.length)
      else (cut mark s).map fun halves => (c :: halves.1, halves.2)

/-- The mark stood between the halves. -/
theorem eq_of_cut {mark s before after : List α} (h : cut mark s = some (before, after)) :
    before ++ mark ++ after = s := by
  induction s generalizing before with
  | nil => cases h
  | cons c s ih =>
      rw [cut] at h
      by_cases hmark : mark <+: c :: s
      · rw [if_pos hmark] at h
        cases h
        exact (List.prefix_iff_eq_append.mp hmark)
      · rw [if_neg hmark] at h
        obtain ⟨halves, hcut, heq⟩ := Option.map_eq_some_iff.mp h
        cases heq
        rw [List.cons_append, List.cons_append, ih hcut]

/-- A mark that is found is found in a longer text. -/
theorem cut_append {mark s before after : List α} (h : cut mark s = some (before, after))
    (t : List α) : cut mark (s ++ t) = some (before, after ++ t) := by
  have hlen : mark.length ≤ s.length := by
    rw [← eq_of_cut h, List.length_append, List.length_append]
    omega
  induction s generalizing before with
  | nil => cases h
  | cons c s ih =>
      rw [cut] at h
      rw [List.cons_append, cut]
      have hstarts : mark <+: c :: (s ++ t) ↔ mark <+: c :: s :=
        ⟨fun hmark => List.prefix_of_prefix_length_le hmark (List.prefix_append (c :: s) t) hlen,
          fun hmark => hmark.trans (List.prefix_append (c :: s) t)⟩
      simp only [hstarts]
      by_cases hmark : mark <+: c :: s
      · rw [if_pos hmark] at h ⊢
        cases h
        rw [← List.cons_append, List.drop_append_of_le_length hlen]
      · rw [if_neg hmark] at h ⊢
        obtain ⟨⟨b, a⟩, hcut, heq⟩ := Option.map_eq_some_iff.mp h
        cases heq
        have hlen' : mark.length ≤ s.length := by
          rw [← eq_of_cut hcut, List.length_append, List.length_append]
          omega
        rw [ih hcut hlen']
        rfl

/-- A mark of one element is not found where the element is not. -/
theorem cut_singleton_eq_none {c : α} {s : List α} : cut [c] s = none ↔ c ∉ s := by
  induction s with
  | nil => simp [cut]
  | cons x s ih =>
      by_cases hx : c = x
      · simp [cut, hx]
      · simp [cut, hx, ih]

/-- What is before a mark that is found has no mark itself. -/
theorem cut_before {mark s before after : List α} (hmark : mark ≠ [])
    (h : cut mark s = some (before, after)) : cut mark before = none := by
  cases hbefore : cut mark before with
  | none => rfl
  | some found =>
      obtain ⟨b, a⟩ := found
      have hlonger := cut_append hbefore (mark ++ after)
      rw [← List.append_assoc, eq_of_cut h, h] at hlonger
      obtain ⟨rfl, -⟩ := Prod.mk.inj (Option.some.inj hlonger)
      have hlen := congrArg List.length (eq_of_cut hbefore)
      have hpos := List.length_pos_of_ne_nil hmark
      simp only [List.length_append] at hlen
      omega

/-- Where there is a mark one is found, and it is the first. -/
theorem exists_cut {mark : List α} (hmark : mark ≠ []) (x y : List α) :
    ∃ before after, cut mark (x ++ mark ++ y) = some (before, after) ∧ y <:+ after := by
  induction x with
  | nil =>
      obtain ⟨c, rest, rfl⟩ := List.exists_cons_of_ne_nil hmark
      refine ⟨[], y, ?_, List.suffix_refl y⟩
      rw [List.nil_append, List.cons_append, cut,
        if_pos (by rw [← List.cons_append]; exact List.prefix_append _ y)]
      simp
  | cons c x ih =>
      rw [List.cons_append, List.cons_append, cut]
      split
      · refine ⟨[], _, rfl, ?_⟩
        refine List.suffix_of_suffix_length_le ?_ (List.drop_suffix _ _) ?_
        · exact (List.suffix_append (x ++ mark) y).trans (List.suffix_cons c _)
        · simp only [List.length_drop, List.length_cons, List.length_append]
          omega
      · obtain ⟨before, after, hcut, hsuffix⟩ := ih
        exact ⟨c :: before, after, by rw [hcut]; rfl, hsuffix⟩

/-- A mark of two elements is not found where they never follow each other. -/
theorem cut_pair_eq_none {a b : α} {s : List α} :
    cut [a, b] s = none ↔ s.IsChain fun x y => ¬ (x = a ∧ y = b) := by
  induction s with
  | nil => simp [cut]
  | cons x s ih =>
      cases s with
      | nil => simp [cut]
      | cons y s =>
          have hmark : [a, b] <+: x :: y :: s ↔ x = a ∧ y = b := by
            simp [List.cons_prefix_cons, eq_comm]
          rw [cut, List.isChain_cons_cons, ← ih]
          by_cases hxy : x = a ∧ y = b
          · simp [hxy]
          · simp [hmark, hxy]

/-- A text that neither ends with the first element of a mark of two nor begins with the second keeps
what is around it apart. -/
theorem cut_pair_append {a b : α} {s mid t : List α} (hs : cut [a, b] s = none)
    (ht : cut [a, b] t = none) (hmid : mid ≠ []) (ha : a ∉ mid) (hb : b ∉ mid) :
    cut [a, b] (s ++ mid ++ t) = none := by
  rw [cut_pair_eq_none] at hs ht ⊢
  rw [List.append_assoc, List.isChain_append, List.isChain_append]
  refine ⟨hs, ⟨?_, ht, ?_⟩, ?_⟩
  · rw [← cut_pair_eq_none]
    by_contra hcut
    obtain ⟨⟨before, after⟩, hcut⟩ := Option.ne_none_iff_exists'.mp hcut
    have hmem : a ∈ before ++ [a, b] ++ after := by simp
    exact ha (eq_of_cut hcut ▸ hmem)
  · rintro x hx y - ⟨rfl, -⟩
    exact ha (List.mem_of_mem_getLast? hx)
  · rintro x - y hy ⟨-, rfl⟩
    rw [List.head?_append_of_ne_nil mid hmid] at hy
    exact hb (List.mem_of_mem_head? hy)

/-- The marks around a name. -/
structure Delimiters (α : Type*) where
  opening : List α
  closing : List α
  opening_ne : opening ≠ []

/-- A part of a template. -/
inductive Piece (α : Type*)
  | text (chars : List α)
  | hole (name : List α)
  deriving DecidableEq

/-- What a part becomes, if a name becomes its text. -/
def Piece.fill (text : List α → List α) : Piece α → List α
  | .text chars => chars
  | .hole name => text name

/-- The name of a placeholder. -/
def Piece.name : Piece α → Option (List α)
  | .text _ => none
  | .hole name => some name

namespace Delimiters

variable (d : Delimiters α)

/-- The first placeholder: what is before it, its name and what is after it. -/
def first (s : List α) : Option (List α × List α × List α) :=
  (cut d.opening s).bind fun open' =>
    (cut d.closing open'.2).map fun close => (open'.1, close.1, close.2)

variable {d} {s before name after : List α}

theorem eq_of_first (h : d.first s = some (before, name, after)) :
    before ++ (d.opening ++ name ++ d.closing) ++ after = s := by
  obtain ⟨⟨b, rest⟩, hopen, h⟩ := Option.bind_eq_some_iff.mp h
  obtain ⟨⟨n, t⟩, hclose, heq⟩ := Option.map_eq_some_iff.mp h
  cases heq
  have hrest := eq_of_cut hclose
  have hs := eq_of_cut hopen
  simp only at hrest
  rw [← hs, ← hrest]
  simp only [List.append_assoc]

/-- A template gets shorter with every placeholder. -/
theorem length_lt_of_first (h : d.first s = some (before, name, after)) :
    after.length < s.length := by
  have hlen := congrArg List.length (eq_of_first h)
  have hpos : 0 < d.opening.length := List.length_pos_of_ne_nil d.opening_ne
  simp only [List.length_append] at hlen
  omega

variable (d)

/-- The parts of a template, as far as `fuel` placeholders. -/
def piecesWithin : ℕ → List α → List (Piece α)
  | 0, s => [.text s]
  | fuel + 1, s => match d.first s with
    | none => [.text s]
    | some (before, name, after) => .text before :: .hole name :: piecesWithin fuel after

/-- The parts of a template. -/
def pieces (s : List α) : List (Piece α) := d.piecesWithin s.length s

/-- The names in a template. -/
def holes (s : List α) : List (List α) := (d.pieces s).filterMap Piece.name

/-- The template with a text for every name. -/
def render (text : List α → List α) (s : List α) : List α := (d.pieces s).flatMap (Piece.fill text)

variable {d}

/-- Fuel for every element of the template is enough. -/
theorem piecesWithin_of_le {fuel more : ℕ} (s : List α) (hfuel : s.length ≤ fuel)
    (hle : fuel ≤ more) : d.piecesWithin more s = d.piecesWithin fuel s := by
  induction fuel generalizing s more with
  | zero =>
      obtain rfl := List.length_eq_zero_iff.mp (Nat.le_zero.mp hfuel)
      cases more with
      | zero => rfl
      | succ more => rfl
  | succ fuel ih =>
      obtain ⟨more, rfl⟩ : ∃ m, more = m + 1 := ⟨more - 1, by omega⟩
      simp only [piecesWithin]
      cases hfirst : d.first s with
      | none => rfl
      | some found =>
          obtain ⟨before, name, after⟩ := found
          have hlt := length_lt_of_first hfirst
          simp only [ih after (by omega) (by omega : fuel ≤ more)]

theorem pieces_of_none (h : d.first s = none) : d.pieces s = [.text s] := by
  rw [pieces]
  cases s.length with
  | zero => rfl
  | succ n => simp only [piecesWithin, h]

theorem pieces_of_some (h : d.first s = some (before, name, after)) :
    d.pieces s = .text before :: .hole name :: d.pieces after := by
  have hlt := length_lt_of_first h
  obtain ⟨n, hn⟩ : ∃ n, s.length = n + 1 := ⟨s.length - 1, by omega⟩
  rw [pieces, hn, piecesWithin, h]
  simp only
  rw [piecesWithin_of_le after le_rfl (by omega : after.length ≤ n), pieces]

theorem mem_holes : name ∈ d.holes s ↔ .hole name ∈ d.pieces s := by
  rw [holes, List.mem_filterMap]
  constructor
  · intro h
    obtain ⟨piece, hmem, hpiece⟩ := h
    cases piece with
    | text chars => cases hpiece
    | hole n =>
        cases hpiece
        exact hmem
  · intro h
    exact ⟨_, h, rfl⟩

theorem holes_of_none (h : d.first s = none) : d.holes s = [] := by
  rw [holes, pieces_of_none h]
  rfl

theorem holes_of_some (h : d.first s = some (before, name, after)) :
    d.holes s = name :: d.holes after := by
  rw [holes, pieces_of_some h]
  rfl

/-- What is before the first opening mark does not matter. -/
theorem holes_cons_of_not_prefix {c : α} (h : ¬ d.opening <+: c :: s) :
    d.holes (c :: s) = d.holes s := by
  have hfirst : d.first (c :: s) = (d.first s).map fun found => (c :: found.1, found.2) := by
    rw [first, first, cut, if_neg h]
    cases cut d.opening s with
    | none => rfl
    | some opened =>
        simp only [Option.map_some, Option.bind_some]
        cases cut d.closing opened.2 <;> rfl
  cases hs : d.first s with
  | none => rw [holes_of_none hs, holes_of_none (hfirst.trans (by rw [hs]; rfl))]
  | some found =>
      obtain ⟨before, name, after⟩ := found
      rw [holes_of_some hs, holes_of_some (hfirst.trans (by rw [hs]; rfl))]

/-- A text with a placeholder in it has a first one. -/
theorem first_ne_none (hclosing : d.closing ≠ []) (x name y : List α) :
    d.first (x ++ (d.opening ++ name ++ d.closing) ++ y) ≠ none := by
  have hsplit : x ++ (d.opening ++ name ++ d.closing) ++ y =
      x ++ d.opening ++ (name ++ d.closing ++ y) := by
    simp only [List.append_assoc]
  obtain ⟨before, opened, hopen, rest, hrest⟩ := exists_cut d.opening_ne x (name ++ d.closing ++ y)
  obtain ⟨inner, after, hclose, -⟩ := exists_cut hclosing (rest ++ name) y
  rw [hsplit, first, hopen, Option.bind_some, ← hrest, ← List.append_assoc, ← List.append_assoc,
    hclose]
  exact Option.some_ne_none _

/-! ## Filling -/

variable {f g : List α → List α}

@[simp] theorem render_of_none (h : d.first s = none) : d.render f s = s := by
  rw [render, pieces_of_none h]
  simp [Piece.fill]

theorem render_of_some (h : d.first s = some (before, name, after)) :
    d.render f s = before ++ f name ++ d.render f after := by
  rw [render, pieces_of_some h]
  simp [Piece.fill, render]

/-- Only the names in the template matter. -/
theorem render_congr (h : ∀ name ∈ d.holes s, f name = g name) : d.render f s = d.render g s := by
  refine List.flatMap_congr fun piece hpiece => ?_
  cases piece with
  | text chars => rfl
  | hole name => exact h name (mem_holes.mpr hpiece)

/-- A placeholder that is filled by itself is still there. -/
theorem first_render_ne_none (hclosing : d.closing ≠ []) (hname : name ∈ d.holes s)
    (hself : f name = d.opening ++ name ++ d.closing) : d.first (d.render f s) ≠ none := by
  obtain ⟨front, back, hpieces⟩ := List.append_of_mem (mem_holes.mp hname)
  rw [render, hpieces, List.flatMap_append, List.flatMap_cons, Piece.fill, hself,
    ← List.append_assoc]
  exact first_ne_none hclosing _ _ _

section Injective

variable {β γ : Type*} {F G : β → List γ} {parts : List β}

/-- Parts of the same lengths are found again in what they make together. -/
theorem eq_of_flatMap_eq (hlen : ∀ x ∈ parts, (F x).length = (G x).length)
    (h : parts.flatMap F = parts.flatMap G) : ∀ x ∈ parts, F x = G x := by
  induction parts with
  | nil =>
      intro x hx
      cases hx
  | cons y parts ih =>
      rw [List.flatMap_cons, List.flatMap_cons] at h
      obtain ⟨hy, hrest⟩ := List.append_inj h (hlen y List.mem_cons_self)
      intro x hx
      rcases List.mem_cons.mp hx with rfl | hx
      · exact hy
      · exact ih (fun z hz => hlen z (List.mem_cons_of_mem _ hz)) hrest x hx

/-- One part that is shorter in all its places makes the whole shorter. -/
theorem length_flatMap_lt {x : β} (hx : x ∈ parts) (hlt : (F x).length < (G x).length)
    (hsame : ∀ y ∈ parts, y ≠ x → F y = G y) :
    (parts.flatMap F).length < (parts.flatMap G).length := by
  rw [List.length_flatMap, List.length_flatMap]
  apply List.sum_lt_sum
  · intro y hy
    by_cases hyx : y = x
    · subst hyx
      exact hlt.le
    · rw [hsame y hy hyx]
  · exact ⟨x, hx, hlt⟩

/-- What differs in one part only differs just if that part does. -/
theorem flatMap_eq_iff {x : β} (hx : x ∈ parts) (hsame : ∀ y ∈ parts, y ≠ x → F y = G y) :
    parts.flatMap F = parts.flatMap G ↔ F x = G x := by
  have hsame' : ∀ y ∈ parts, y ≠ x → G y = F y := fun y hy hne => (hsame y hy hne).symm
  constructor
  · intro h
    have hlen := congrArg List.length h
    have hge : ¬ (F x).length < (G x).length := fun hlt =>
      absurd hlen (length_flatMap_lt hx hlt hsame).ne
    have hle : ¬ (G x).length < (F x).length := fun hlt =>
      absurd hlen (length_flatMap_lt hx hlt hsame').ne'
    refine eq_of_flatMap_eq ?_ h x hx
    intro y hy
    by_cases hyx : y = x
    · subst hyx
      omega
    · rw [hsame y hy hyx]
  · intro h
    refine List.flatMap_congr fun y hy => ?_
    by_cases hyx : y = x
    · subst hyx
      exact h
    · exact hsame y hy hyx

end Injective

/-- A template with a placeholder tells two texts for it apart. -/
theorem render_eq_iff (hname : name ∈ d.holes s)
    (hsame : ∀ other ∈ d.holes s, other ≠ name → f other = g other) :
    d.render f s = d.render g s ↔ f name = g name := by
  have hparts : ∀ piece ∈ d.pieces s, piece ≠ .hole name → piece.fill f = piece.fill g := by
    intro piece hpiece hne
    cases piece with
    | text chars => rfl
    | hole other =>
        apply hsame other (mem_holes.mpr hpiece)
        intro heq
        exact hne (heq ▸ rfl)
  exact flatMap_eq_iff (mem_holes.mp hname) hparts

end Delimiters
end Nazh.Lib
