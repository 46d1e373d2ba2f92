import Mathlib.Data.Finset.Card
import Mathlib.Data.List.Chain
import Mathlib.Logic.Relation
import Mathlib.Tactic.Common

/-!
# Depth-first search

A search goes through a list of choices, enters each that it has not entered before, and goes
through its successors in the same way. Each call has the path of nodes that are being explored.

A node is entered along its first path: at every point the first choice is taken from which the
node can still be reached without going back into the path. This says which calls a search makes
without mentioning what was visited (`explores`), so that what a program does at its calls is a
property of the graph and of the order of the choices.

## Main definitions

* `Reach` — reachability without entering a set of nodes.
* `First` — the first path to a node.
* `visit`, `visitAll` — the search, with its calls.
* `Explores` — what a search visits and which calls it makes.
-/

namespace Nazh.Lib.DepthFirst

universe u

variable {α : Type u} (adj : α → List α)

/-! ## Reachability -/

/-- `y` can be reached from `x` without entering `avoid`. -/
def Reach (avoid : Finset α) (x y : α) : Prop :=
  x ∉ avoid ∧ Relation.ReflTransGen (fun a b => b ∈ adj a ∧ b ∉ avoid) x y

variable {adj} {V W : Finset α} {x y z : α}

theorem Reach.refl (h : x ∉ V) : Reach adj V x x := ⟨h, .refl⟩

theorem Reach.head (hx : x ∉ V) (hy : y ∈ adj x) (h : Reach adj V y z) : Reach adj V x z :=
  ⟨hx, .head ⟨hy, h.1⟩ h.2⟩

theorem Reach.trans (h : Reach adj V x y) (h' : Reach adj V y z) : Reach adj V x z :=
  ⟨h.1, h.2.trans h'.2⟩

/-- The end is not avoided either. -/
theorem Reach.notMem (h : Reach adj V x y) : y ∉ V := by
  obtain ⟨hx, hwalk⟩ := h
  cases hwalk with
  | refl => exact hx
  | tail _ hlast => exact hlast.2

/-- Less to avoid, more to reach. -/
theorem Reach.mono (hVW : V ⊆ W) (h : Reach adj W x y) : Reach adj V x y :=
  ⟨fun hx => h.1 (hVW hx),
    Relation.ReflTransGen.mono (fun _ _ hedge => ⟨hedge.1, fun hb => hedge.2 (hVW hb)⟩) _ _ h.2⟩

/-- Nothing leads out of what `W` has more than `V`, except into `W`. -/
structure Absorbs (adj : α → List α) (V W : Finset α) : Prop where
  subset : V ⊆ W
  closed : ∀ x ∈ W, x ∉ V → ∀ y ∈ adj x, y ∈ W

/-- Who starts in what is absorbed stays there. -/
theorem Absorbs.mem (h : Absorbs adj V W) (hreach : Reach adj V x y) (hx : x ∈ W) : y ∈ W := by
  obtain ⟨hxV, hwalk⟩ := hreach
  induction hwalk with
  | refl => exact hx
  | @tail b c hrest hlast ih =>
      have hb : Reach adj V x b := ⟨hxV, hrest⟩
      exact h.closed b ih hb.notMem c hlast.1

/-- Who ends outside was never inside. -/
theorem Absorbs.reach (h : Absorbs adj V W) (hreach : Reach adj V x y) (hy : y ∉ W) :
    Reach adj W x y := by
  obtain ⟨hxV, hwalk⟩ := hreach
  induction hwalk using Relation.ReflTransGen.head_induction_on with
  | refl => exact .refl hy
  | @head a b hedge _ ih =>
      have hb := ih hedge.2
      have ha : a ∉ W := fun haW => hb.1 (h.closed a haW hxV b hedge.1)
      exact .head ha hedge.1 hb

/-- What is reached from a node is absorbed with it. -/
theorem Absorbs.of_reach (hV : V ⊆ W) (hW : ∀ y, y ∈ W ↔ y ∈ V ∨ Reach adj V x y) :
    Absorbs adj V W where
  subset := hV
  closed := by
    intro y hy hnot z hz
    have hreach : Reach adj V x y := ((hW y).mp hy).resolve_left hnot
    by_cases hzV : z ∈ V
    · exact hV hzV
    · exact (hW z).mpr (.inr (hreach.trans (.head hreach.notMem hz (.refl hzV))))

/-- Two ways to take a choice: it is the same one, or one of them comes before the other. -/
theorem same_choice {before after before' after' : List α}
    (h : before ++ x :: after = before' ++ y :: after') : x = y ∨ x ∈ before' ∨ y ∈ before := by
  rcases List.append_eq_append_iff.mp h with ⟨mid, rfl, hmid⟩ | ⟨mid, rfl, hmid⟩
  · cases mid with
    | nil => exact .inl (List.cons.inj hmid).1
    | cons m mid => exact .inr (.inl (by simp [(List.cons.inj hmid).1]))
  · cases mid with
    | nil => exact .inl (List.cons.inj hmid).1.symm
    | cons m mid => exact .inr (.inr (by simp [(List.cons.inj hmid).1]))

variable [DecidableEq α]

/-- What is reached from a node is the node, or is reached from a successor without coming back. -/
theorem reach_iff_insert (hx : x ∉ V) :
    Reach adj V x z ↔ z = x ∨ ∃ y ∈ adj x, Reach adj (insert x V) y z := by
  constructor
  · intro h
    have hlast : ∀ a, a ∉ V → Relation.ReflTransGen (fun a b => b ∈ adj a ∧ b ∉ V) a z →
        Reach adj (insert x V) a z ∨ z = x ∨ ∃ y ∈ adj x, Reach adj (insert x V) y z := by
      intro a ha hwalk
      -- the induction finds the last time that `x` is on the walk
      induction hwalk using Relation.ReflTransGen.head_induction_on with
      | refl =>
          by_cases hz : z = x
          · exact .inr (.inl hz)
          · exact .inl (.refl (by simp [hz, ha]))
      | @head a b hedge _ ih =>
          rcases ih hedge.2 with hreach | hcome
          · by_cases hax : a = x
            · subst hax
              exact .inr (.inr ⟨b, hedge.1, hreach⟩)
            · exact .inl (.head (by simp [hax, ha]) hedge.1 hreach)
          · exact .inr hcome
    rcases hlast x hx h.2 with hreach | hcome
    · exact absurd (Finset.mem_insert_self x V) hreach.1
    · exact hcome
  · intro h
    rcases h with rfl | ⟨y, hy, hreach⟩
    · exact .refl hx
    · exact .head hx hy (hreach.mono (Finset.subset_insert x V))

theorem Absorbs.insert (h : Absorbs adj V W) (x : α) : Absorbs adj (insert x V) (insert x W) where
  subset := Finset.insert_subset_insert x h.subset
  closed := by
    intro y hy hnot z hz
    rw [Finset.mem_insert, not_or] at hnot
    have hyW : y ∈ W := Finset.mem_of_mem_insert_of_ne hy hnot.1
    exact Finset.mem_insert_of_mem (h.closed y hyW hnot.2 z hz)

/-! ## First paths -/

variable (adj) in
/-- The first path to `z` among those that start with a choice and avoid `V`: no choice before
the one that is taken leads to `z`. -/
inductive First : Finset α → List α → List α → α → Prop
  | here {V : Finset α} {choices before after : List α} {z : α} :
      choices = before ++ z :: after → z ∉ V → (∀ y ∈ before, ¬ Reach adj V y z) →
      First V choices [z] z
  | step {V : Finset α} {choices before after path : List α} {x z : α} :
      choices = before ++ x :: after → x ∉ V → (∀ y ∈ before, ¬ Reach adj V y z) →
      First (insert x V) (adj x) path z → First V choices (x :: path) z

variable {choices path path' : List α}

/-- A first path has a start, and its end is reached from there. -/
theorem First.reach (h : First adj V choices path z) :
    ∃ x rest, path = x :: rest ∧ x ∈ choices ∧ Reach adj V x z := by
  induction h with
  | here hchoices hz _ =>
      subst hchoices
      exact ⟨_, [], rfl, by simp, .refl hz⟩
  | step hchoices hx _ _ ih =>
      subst hchoices
      obtain ⟨y, rest, rfl, hy, hreach⟩ := ih
      exact ⟨_, _, rfl, by simp, .head hx hy (hreach.mono (Finset.subset_insert _ _))⟩

theorem First.notMem (h : First adj V choices path z) : z ∉ V := by
  obtain ⟨x, rest, -, -, hreach⟩ := h.reach
  exact hreach.notMem

theorem First.getLast? (h : First adj V choices path z) : path.getLast? = some z := by
  induction h with
  | here => rfl
  | step _ _ _ h ih =>
      obtain ⟨y, rest, rfl, -, -⟩ := h.reach
      rw [List.getLast?_cons_cons, ih]

/-- A first path follows edges. -/
theorem First.isChain (h : First adj V choices path z) :
    path.IsChain fun a b => b ∈ adj a := by
  induction h with
  | here => exact List.isChain_singleton _
  | step _ _ _ h ih =>
      obtain ⟨y, rest, rfl, hy, -⟩ := h.reach
      exact List.isChain_cons_cons.mpr ⟨hy, ih⟩

/-- A first path does not enter what it avoids, and no node twice. -/
theorem First.nodup (h : First adj V choices path z) : path.Nodup ∧ ∀ x ∈ path, x ∉ V := by
  induction h with
  | here _ hz _ => simp [hz]
  | step _ hx _ _ ih =>
      obtain ⟨hnodup, havoid⟩ := ih
      refine ⟨List.nodup_cons.mpr ⟨?_, hnodup⟩, ?_⟩
      · intro hmem
        exact havoid _ hmem (Finset.mem_insert_self _ _)
      · intro y hy
        rcases List.mem_cons.mp hy with rfl | hrest
        · exact hx
        · exact fun hyV => havoid y hrest (Finset.mem_insert_of_mem hyV)

/-- There is one first path to a node. -/
theorem First.unique (h : First adj V choices path z) (h' : First adj V choices path' z) :
    path = path' := by
  induction h generalizing path' with
  | here hchoices hz hbefore =>
      cases h' with
      | here => rfl
      | step hchoices' hx hbefore' hrest =>
          subst hchoices
          rcases same_choice hchoices' with rfl | hmem | hmem
          · exact absurd (Finset.mem_insert_self _ _) hrest.notMem
          · exact absurd (.refl hz) (hbefore' _ hmem)
          · obtain ⟨y, _, rfl, hy, hreach⟩ := hrest.reach
            exact absurd (.head hx hy (hreach.mono (Finset.subset_insert _ _))) (hbefore _ hmem)
  | step hchoices hx hbefore hrest ih =>
      obtain ⟨y, _, _, hy, hreach⟩ := hrest.reach
      have hstart := Reach.head hx hy (hreach.mono (Finset.subset_insert _ _))
      cases h' with
      | here hchoices' hz hbefore' =>
          subst hchoices
          rcases same_choice hchoices' with rfl | hmem | hmem
          · exact absurd (Finset.mem_insert_self _ _) hrest.notMem
          · exact absurd hstart (hbefore' _ hmem)
          · exact absurd (.refl hz) (hbefore _ hmem)
      | step hchoices' hx' hbefore' hrest' =>
          subst hchoices
          rcases same_choice hchoices' with rfl | hmem | hmem
          · rw [ih hrest']
          · exact absurd hstart (hbefore' _ hmem)
          · obtain ⟨y', _, _, hy', hreach'⟩ := hrest'.reach
            exact absurd (.head hx' hy' (hreach'.mono (Finset.subset_insert _ _))) (hbefore _ hmem)

/-- A first path is the first path to each of its nodes, up to there. -/
theorem First.upTo {before after : List α} (h : First adj V choices path z)
    (hpath : path = before ++ x :: after) : First adj V choices (before ++ [x]) x ∧ Reach adj V x z := by
  induction h generalizing before with
  | here hchoices hz hbefore =>
      cases before with
      | nil =>
          obtain ⟨rfl, rfl⟩ := List.cons.inj hpath
          exact ⟨.here hchoices hz hbefore, .refl hz⟩
      | cons b before => simp at hpath
  | step hchoices hx hbefore hrest ih =>
      obtain ⟨y, _, hy_eq, hy, hreach⟩ := hrest.reach
      have hstart := Reach.head hx hy (hreach.mono (Finset.subset_insert _ _))
      cases before with
      | nil =>
          obtain ⟨rfl, rfl⟩ := List.cons.inj hpath
          refine ⟨.here hchoices hx ?_, hstart⟩
          intro c hc hreach
          exact hbefore c hc (hreach.trans hstart)
      | cons b before =>
          obtain ⟨rfl, hpath'⟩ := List.cons.inj hpath
          obtain ⟨hfirst, hon⟩ := ih hpath'
          have hon' := hon.mono (Finset.subset_insert _ _)
          refine ⟨.step hchoices hx ?_ hfirst, hon'⟩
          intro c hc hreach
          exact hbefore c hc (hreach.trans hon')

/-- Two first paths that end with the same nodes end with them in the same order. -/
theorem First.eq_of_perm {before loop before' loop' : List α} {z' : α} (hloop : loop ≠ [])
    (h : First adj V choices (before ++ loop) z) (h' : First adj V choices (before' ++ loop') z')
    (hperm : loop.Perm loop') : loop = loop' ∧ z = z' := by
  have hlength := hperm.length_eq
  have hloop' : loop' ≠ [] := by
    intro hnil
    rw [hnil] at hperm
    exact hloop hperm.eq_nil
  -- each path goes through the end of the other, so that each is a part of the other
  have hpart : ∀ {before loop before' loop' : List α} {z z' : α}, loop ≠ [] →
      First adj V choices (before ++ loop) z → First adj V choices (before' ++ loop') z' →
      loop.Perm loop' → (before ++ loop) <+: (before' ++ loop') := by
    intro before loop before' loop' z z' hloop h h' hperm
    have hlast := h.getLast?
    rw [List.getLast?_append_of_ne_nil _ hloop] at hlast
    have hmem : z ∈ before' ++ loop' :=
      List.mem_append_right _ (hperm.mem_iff.mp (List.mem_of_getLast? hlast))
    obtain ⟨s, t, hsplit⟩ := List.append_of_mem hmem
    have heq := h.unique (h'.upTo hsplit).1
    exact ⟨t, by rw [heq, hsplit, List.append_assoc]; rfl⟩
  have hpath : before ++ loop = before' ++ loop' :=
    (hpart hloop h h' hperm).eq_of_length_le (hpart hloop' h' h hperm.symm).length_le
  have hsuffix := List.append_inj_right' hpath hlength
  refine ⟨hsuffix, ?_⟩
  have hlast := h.getLast?
  rw [hpath, h'.getLast?] at hlast
  exact (Option.some.inj hlast).symm

/-- To avoid what is absorbed makes no difference to a first path that ends outside. -/
theorem Absorbs.first_iff (h : Absorbs adj V W) :
    First adj W choices path z ↔ First adj V choices path z ∧ z ∉ W := by
  constructor
  · intro hfirst
    refine ⟨?_, hfirst.notMem⟩
    induction hfirst generalizing V with
    | here hchoices hz hbefore =>
        refine .here hchoices (fun hzV => hz (h.subset hzV)) ?_
        intro y hy hreach
        exact hbefore y hy (h.reach hreach hz)
    | step hchoices hx hbefore hrest ih =>
        refine .step hchoices (fun hxV => hx (h.subset hxV)) ?_ (ih (h.insert _))
        intro y hy hreach
        have hz := hrest.notMem
        exact hbefore y hy (h.reach hreach fun hzW => hz (Finset.mem_insert_of_mem hzW))
  · intro hfirst
    obtain ⟨hfirst, hz⟩ := hfirst
    induction hfirst generalizing W with
    | here hchoices _ hbefore =>
        refine .here hchoices hz ?_
        intro y hy hreach
        exact hbefore y hy (hreach.mono h.subset)
    | step hchoices hx hbefore hrest ih =>
        obtain ⟨y, _, _, hy, hreach⟩ := hrest.reach
        have hstart := Reach.head hx hy (hreach.mono (Finset.subset_insert _ _))
        refine .step hchoices (fun hxW => hz (h.mem hstart hxW)) ?_ (ih (h.insert _) ?_)
        · intro y hy hreach
          exact hbefore y hy (hreach.mono h.subset)
        · intro hmem
          rcases Finset.mem_insert.mp hmem with rfl | hmem
          · exact hrest.notMem (Finset.mem_insert_self _ _)
          · exact hz hmem

/-! ## The search -/

/-- What was visited, and the calls: each with the path at that time. -/
abbrev Search (α : Type u) := Option (Finset α × List (List α × α))

/-- Go through a list, one after another. -/
def visitEach (one : Finset α → α → Search α) (visited : Finset α) : List α → Search α
  | [] => some (visited, [])
  | n :: rest =>
      (one visited n).bind fun here =>
        (visitEach one here.1 rest).map fun there => (there.1, here.2 ++ there.2)

variable (adj) in
/-- The search from one node, with fuel for `fuel` nodes below one another. -/
def visit : ℕ → List α → Finset α → α → Search α
  | 0, _, _, _ => none
  | fuel + 1, path, visited, n =>
      if n ∈ visited then some (visited, [(path, n)])
      else
        (visitEach (visit fuel (path ++ [n])) (insert n visited) (adj n)).map fun below =>
          (below.1, (path, n) :: below.2)

variable (adj) in
/-- What a search of `choices` visits, and which calls it makes. -/
structure Explores (path : List α) (V : Finset α) (choices : List α)
    (result : Finset α × List (List α × α)) : Prop where
  /-- It visits what can be reached without entering what was visited. -/
  visited : ∀ x, x ∈ result.1 ↔ x ∈ V ∨ ∃ n ∈ choices, Reach adj V n x
  /-- It calls the choices, and at the end of each first path the successors. -/
  calls : ∀ call, call ∈ result.2 ↔ (call.1 = path ∧ call.2 ∈ choices) ∨
    ∃ r x, First adj V choices r x ∧ call.1 = path ++ r ∧ call.2 ∈ adj x

variable {result : Finset α × List (List α × α)}

/-- A first path starts with a later choice if the first one does not lead to its end. -/
theorem First.later (hnot : ¬ Reach adj V x z) (h : First adj V choices path z) :
    First adj V (x :: choices) path z := by
  have hbefore' : ∀ {before : List α}, (∀ y ∈ before, ¬ Reach adj V y z) →
      ∀ y ∈ x :: before, ¬ Reach adj V y z := by
    intro before hbefore y hy
    rcases List.mem_cons.mp hy with rfl | hy
    · exact hnot
    · exact hbefore y hy
  cases h with
  | @here _ _ before after _ hchoices hz hbefore =>
      have hlater : x :: choices = (x :: before) ++ z :: after := congrArg (x :: ·) hchoices
      exact .here hlater hz (hbefore' hbefore)
  | @step _ _ before after _ y _ hchoices hy hbefore hrest =>
      have hlater : x :: choices = (x :: before) ++ y :: after := congrArg (x :: ·) hchoices
      exact .step hlater hy (hbefore' hbefore) hrest

/-- A first path starts with the first choice, or that does not lead to its end. -/
theorem First.cons_cases (h : First adj V (x :: choices) path z) :
    (x ∉ V ∧ ((path = [x] ∧ z = x) ∨ ∃ r, path = x :: r ∧ First adj (insert x V) (adj x) r z)) ∨
      (¬ Reach adj V x z ∧ First adj V choices path z) := by
  cases h with
  | @here _ _ before _ _ hchoices hz hbefore =>
      cases before with
      | nil =>
          obtain ⟨rfl, -⟩ := List.cons.inj hchoices
          exact .inl ⟨hz, .inl ⟨rfl, rfl⟩⟩
      | cons b before =>
          obtain ⟨rfl, htail⟩ := List.cons.inj hchoices
          exact .inr ⟨hbefore x List.mem_cons_self,
            .here htail hz fun y hy => hbefore y (List.mem_cons_of_mem _ hy)⟩
  | @step _ _ before _ r y _ hchoices hy hbefore hrest =>
      cases before with
      | nil =>
          obtain ⟨rfl, -⟩ := List.cons.inj hchoices
          exact .inl ⟨hy, .inr ⟨r, rfl, hrest⟩⟩
      | cons b before =>
          obtain ⟨rfl, htail⟩ := List.cons.inj hchoices
          exact .inr ⟨hbefore x List.mem_cons_self,
            .step htail hy (fun y hy => hbefore y (List.mem_cons_of_mem _ hy)) hrest⟩

/-- A choice that was visited leads nowhere. -/
theorem first_cons_of_mem (hx : x ∈ V) :
    First adj V (x :: choices) path z ↔ First adj V choices path z := by
  constructor
  · intro h
    rcases h.cons_cases with ⟨hnot, -⟩ | ⟨-, h⟩
    · exact absurd hx hnot
    · exact h
  · intro h
    exact h.later fun hreach => hreach.1 hx

/-- A choice that was not visited is taken, or does not lead to the end. -/
theorem first_cons_iff (hx : x ∉ V) :
    First adj V (x :: choices) path z ↔
      (path = [x] ∧ z = x) ∨ (∃ r, path = x :: r ∧ First adj (insert x V) (adj x) r z) ∨
        (¬ Reach adj V x z ∧ First adj V choices path z) := by
  constructor
  · intro h
    rcases h.cons_cases with ⟨-, h | h⟩ | h
    · exact .inl h
    · exact .inr (.inl h)
    · exact .inr (.inr h)
  · intro h
    have hnone : ∀ y ∈ ([] : List α), ¬ Reach adj V y z := fun y hy => absurd hy List.not_mem_nil
    rcases h with ⟨rfl, rfl⟩ | ⟨r, rfl, hrest⟩ | ⟨hnot, h⟩
    · exact .here (List.nil_append _).symm hx hnone
    · exact .step (List.nil_append _).symm hx hnone hrest
    · exact h.later hnot

theorem first_nil : ¬ First adj V [] path z := by
  intro h
  obtain ⟨x, _, _, hx, _⟩ := h.reach
  exact List.not_mem_nil hx

/-- A search goes on after its first choice. -/
theorem Explores.cons {here there : Finset α × List (List α × α)}
    (hhere : Explores adj path V [x] here) (hthere : Explores adj path here.1 choices there) :
    Explores adj path V (x :: choices) (there.1, here.2 ++ there.2) := by
  have hvisited : ∀ y, y ∈ here.1 ↔ y ∈ V ∨ Reach adj V x y := by
    intro y
    simpa using hhere.visited y
  have habsorbs : Absorbs adj V here.1 :=
    .of_reach (fun y hy => (hvisited y).mpr (.inl hy)) hvisited
  refine ⟨?_, ?_⟩
  · intro y
    constructor
    · intro hy
      rcases (hthere.visited y).mp hy with hhere | ⟨n, hn, hreach⟩
      · rcases (hvisited y).mp hhere with hV | hreach
        · exact .inl hV
        · exact .inr ⟨x, List.mem_cons_self, hreach⟩
      · exact .inr ⟨n, List.mem_cons_of_mem _ hn, hreach.mono habsorbs.subset⟩
    · intro hy
      apply (hthere.visited y).mpr
      by_cases hhere : y ∈ here.1
      · exact .inl hhere
      · rcases hy with hV | ⟨n, hn, hreach⟩
        · exact .inl (habsorbs.subset hV)
        · rcases List.mem_cons.mp hn with rfl | hn
          · exact .inl ((hvisited y).mpr (.inr hreach))
          · exact .inr ⟨n, hn, habsorbs.reach hreach hhere⟩
  · intro call
    have hfirst : ∀ r z, First adj V (x :: choices) r z ↔
        First adj V [x] r z ∨ First adj here.1 choices r z := by
      intro r z
      by_cases hx : x ∈ V
      · have hsame : ∀ y, y ∈ here.1 ↔ y ∈ V := by
          intro y
          constructor
          · intro hy
            exact ((hvisited y).mp hy).resolve_right fun h => h.1 hx
          · exact fun hy => habsorbs.subset hy
        have heq : here.1 = V := Finset.ext hsame
        rw [first_cons_of_mem hx, first_cons_of_mem hx, heq]
        constructor
        · exact .inr
        · intro h
          exact h.resolve_left first_nil
      · rw [first_cons_iff hx, first_cons_iff hx, habsorbs.first_iff]
        constructor
        · intro h
          rcases h with h | h | ⟨hnot, h⟩
          · exact .inl (.inl h)
          · exact .inl (.inr (.inl h))
          · refine .inr ⟨h, ?_⟩
            intro hz
            rcases (hvisited z).mp hz with hV | hreach
            · exact h.notMem hV
            · exact hnot hreach
        · intro h
          rcases h with (h | h | ⟨-, h⟩) | ⟨h, hz⟩
          · exact .inl h
          · exact .inr (.inl h)
          · exact absurd h first_nil
          · exact .inr (.inr ⟨fun hreach => hz ((hvisited z).mpr (.inr hreach)), h⟩)
    rw [List.mem_append, hhere.calls, hthere.calls]
    simp only [hfirst, List.mem_cons, List.not_mem_nil, or_false]
    constructor
    · intro h
      rcases h with (⟨hp, hn⟩ | ⟨r, z, h⟩) | (⟨hp, hn⟩ | ⟨r, z, h⟩)
      · exact .inl ⟨hp, .inl hn⟩
      · exact .inr ⟨r, z, .inl h.1, h.2⟩
      · exact .inl ⟨hp, .inr hn⟩
      · exact .inr ⟨r, z, .inr h.1, h.2⟩
    · intro h
      rcases h with ⟨hp, hn | hn⟩ | ⟨r, z, h | h, hrest⟩
      · exact .inl (.inl ⟨hp, hn⟩)
      · exact .inr (.inl ⟨hp, hn⟩)
      · exact .inl (.inr ⟨r, z, h, hrest⟩)
      · exact .inr (.inr ⟨r, z, h, hrest⟩)

/-- If the search of each choice explores it, the search of all explores them. -/
theorem explores_visitEach {one : Finset α → α → Search α}
    (hone : ∀ V n result, one V n = some result → Explores adj path V [n] result)
    (h : visitEach one V choices = some result) : Explores adj path V choices result := by
  induction choices generalizing V result with
  | nil =>
      obtain rfl := Option.some.inj h
      refine ⟨by simp, ?_⟩
      intro call
      simp [first_nil]
  | cons x choices ih =>
      obtain ⟨here, hhere, hrest⟩ := Option.bind_eq_some_iff.mp h
      obtain ⟨there, hthere, rfl⟩ := Option.map_eq_some_iff.mp hrest
      exact (hone V x here hhere).cons (ih hthere)

/-- A search explores what it starts from. -/
theorem explores_visit {fuel : ℕ} (h : visit adj fuel path V x = some result) :
    Explores adj path V [x] result := by
  induction fuel generalizing path V x result with
  | zero => cases h
  | succ fuel ih =>
      rw [visit] at h
      split at h
      · rename_i hx
        obtain rfl := Option.some.inj h
        refine ⟨?_, ?_⟩
        · intro y
          constructor
          · exact .inl
          · intro hy
            rcases hy with hV | ⟨n, hn, hreach⟩
            · exact hV
            · obtain rfl := List.mem_singleton.mp hn
              exact absurd hx hreach.1
        · intro call
          simp [first_cons_of_mem hx, first_nil, Prod.ext_iff]
      · rename_i hx
        obtain ⟨below, hbelow, rfl⟩ := Option.map_eq_some_iff.mp h
        have hexplores : Explores adj (path ++ [x]) (insert x V) (adj x) below :=
          explores_visitEach (fun _ _ _ h => ih h) hbelow
        refine ⟨?_, ?_⟩
        · intro y
          simp only [hexplores.visited y, List.mem_singleton, exists_eq_left, reach_iff_insert hx,
            Finset.mem_insert]
          constructor
          · intro h
            rcases h with (h | h) | h
            · exact .inr (.inl h)
            · exact .inl h
            · exact .inr (.inr h)
          · intro h
            rcases h with h | h | h
            · exact .inl (.inr h)
            · exact .inl (.inl h)
            · exact .inr h
        · intro call
          simp only [List.mem_cons, hexplores.calls call, first_cons_iff hx, first_nil, and_false,
            or_false, List.not_mem_nil, Prod.ext_iff]
          constructor
          · intro h
            rcases h with ⟨hp, hn⟩ | ⟨hp, hn⟩ | ⟨r, z, hfirst, hp, hn⟩
            · exact .inl ⟨hp, hn⟩
            · exact .inr ⟨[x], x, .inl ⟨rfl, rfl⟩, hp, hn⟩
            · exact .inr ⟨x :: r, z, .inr ⟨r, rfl, hfirst⟩, by simp [hp], hn⟩
          · intro h
            rcases h with ⟨hp, hn⟩ | ⟨r, z, ⟨rfl, rfl⟩ | ⟨r, rfl, hfirst⟩, hp, hn⟩
            · exact .inl ⟨hp, hn⟩
            · exact .inr (.inl ⟨hp, hn⟩)
            · exact .inr (.inr ⟨r, z, hfirst, by simp [hp], hn⟩)

/-! ## Fuel -/

omit [DecidableEq α] in
/-- If the search of each choice ends, the search of all ends. -/
theorem visitEach_isSome {nodes : Finset α} {one : Finset α → α → Search α}
    (hchoices : ∀ n ∈ choices, n ∈ nodes)
    (hone : ∀ W n, V ⊆ W → n ∈ nodes → ∃ result, one W n = some result ∧ W ⊆ result.1) :
    ∃ result, visitEach one V choices = some result ∧ V ⊆ result.1 := by
  induction choices generalizing V with
  | nil => exact ⟨_, rfl, subset_rfl⟩
  | cons x choices ih =>
      obtain ⟨here, hhere, hV⟩ := hone V x subset_rfl (hchoices x List.mem_cons_self)
      obtain ⟨there, hthere, hW⟩ := ih (fun n hn => hchoices n (List.mem_cons_of_mem _ hn))
        fun W n hW hn => hone W n (hV.trans hW) hn
      refine ⟨(there.1, here.2 ++ there.2), ?_, hV.trans hW⟩
      rw [visitEach, hhere, Option.bind_some, hthere, Option.map_some]

/-- A search that has fuel for the nodes of a graph it has not visited ends. -/
theorem visit_isSome {nodes : Finset α} (hadj : ∀ n ∈ nodes, ∀ m ∈ adj n, m ∈ nodes) {fuel : ℕ}
    (hfuel : (nodes \ V).card < fuel) (hx : x ∈ nodes) :
    ∃ result, visit adj fuel path V x = some result ∧ V ⊆ result.1 := by
  induction fuel generalizing path V x with
  | zero => omega
  | succ fuel ih =>
      rw [visit]
      by_cases hmem : x ∈ V
      · rw [if_pos hmem]
        exact ⟨_, rfl, subset_rfl⟩
      · rw [if_neg hmem]
        have hless : (nodes \ insert x V).card < (nodes \ V).card := by
          apply Finset.card_lt_card
          refine Finset.ssubset_iff_of_subset ?_ |>.mpr ⟨x, by simp [hx, hmem], by simp⟩
          exact Finset.sdiff_subset_sdiff subset_rfl (Finset.subset_insert x V)
        have hone : ∀ W n, insert x V ⊆ W → n ∈ nodes →
            ∃ result, visit adj fuel (path ++ [x]) W n = some result ∧ W ⊆ result.1 := by
          intro W n hW hn
          have hcard : (nodes \ W).card ≤ (nodes \ insert x V).card :=
            Finset.card_le_card (Finset.sdiff_subset_sdiff subset_rfl hW)
          exact ih (by omega) hn
        obtain ⟨below, hbelow, hsub⟩ := visitEach_isSome (hadj x hx) hone
        refine ⟨_, by rw [hbelow, Option.map_some], ?_⟩
        exact (Finset.subset_insert x V).trans hsub

end Nazh.Lib.DepthFirst
