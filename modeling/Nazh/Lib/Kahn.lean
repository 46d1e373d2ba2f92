import Mathlib.Data.Finset.Card
import Mathlib.Data.List.Basic
import Mathlib.Data.List.Count
import Mathlib.Data.List.Perm.Basic
import Mathlib.Data.List.Perm.Subperm
import Mathlib.Data.Nat.Init
import Mathlib.Logic.Function.Basic
import Mathlib.Logic.Relation
import Mathlib.Tactic.Common

/-!
# Topological sorting by counting in-edges

The nodes without in-edges are queued. Each node taken from the queue is put into the
order and its out-edges are taken away; a node is queued when its last in-edge goes. The
edges are a list of pairs, in which a pair may occur more than once.

What the loop keeps is said in terms of the edges that are left: every count is the
number of edges left into its node, and a node is queued or done exactly when it has
none.

## Main definitions

* `kahn` — the order; `drain` — the loop, with its fuel.
* `Topological edges order` — every node of the order comes after its predecessors.
* `Acyclic edges` — no way along the edges leads back to where it began.
* `trail m n between` — a way from one node over others to a last one.
-/

namespace Nazh.Lib

universe u

variable {ν : Type u} [DecidableEq ν]

/-- The targets of the edges out of a node. -/
def successors (edges : List (ν × ν)) (n : ν) : List ν :=
  (edges.filter fun e => e.1 = n).map Prod.snd

/-- The number of edges into a node. -/
def indegree (edges : List (ν × ν)) (n : ν) : ℕ := (edges.map Prod.snd).count n

/-- One edge into a node is taken away: count down, and queue the node at zero. -/
def relax (state : (ν → ℕ) × List ν) (n : ν) : (ν → ℕ) × List ν :=
  let count := state.1 n - 1
  (Function.update state.1 n count, if count = 0 then state.2 ++ [n] else state.2)

/-- The loop: the nodes in the order in which they leave the queue. -/
def drain (edges : List (ν × ν)) : ℕ → (ν → ℕ) → List ν → List ν
  | 0, _, _ => []
  | _ + 1, _, [] => []
  | fuel + 1, count, n :: queue =>
      let state := (successors edges n).foldl relax (count, queue)
      n :: drain edges fuel state.1 state.2

/-- The order in which the nodes are done, from the given roots. -/
def kahn (nodes roots : List ν) (edges : List (ν × ν)) : List ν :=
  drain edges (nodes.length + 1) (indegree edges) roots

/-- Every node of the order comes after its predecessors. -/
structure Topological (edges : List (ν × ν)) (order : List ν) : Prop where
  nodup : order.Nodup
  sources_before : ∀ pre n post, order = pre ++ n :: post → ∀ m, (m, n) ∈ edges → m ∈ pre

variable {edges : List (ν × ν)} {nodes roots : List ν}

theorem mem_successors {m n : ν} : n ∈ successors edges m ↔ (m, n) ∈ edges := by
  simp [successors]

/-! ## The edges that are left -/

/-- The targets of the edges whose source is not done. -/
def pending (edges : List (ν × ν)) (done : List ν) : List ν :=
  (edges.filter fun e => e.1 ∉ done).map Prod.snd

theorem mem_pending {done : List ν} {n : ν} :
    n ∈ pending edges done ↔ ∃ m, (m, n) ∈ edges ∧ m ∉ done := by
  simp [pending]

theorem pending_nil : pending edges [] = edges.map Prod.snd := by simp [pending]

/-- When a node is done, the edges left before are those it had and those left after. -/
theorem pending_perm (edges : List (ν × ν)) {done : List ν} {n : ν} (hn : n ∉ done) :
    (pending edges done).Perm (successors edges n ++ pending edges (done ++ [n])) := by
  induction edges with
  | nil => exact List.Perm.refl _
  | cons e rest ih =>
      obtain ⟨m, k⟩ := e
      by_cases hm : m = n
      · subst hm
        simpa [pending, successors, hn] using ih.cons k
      · by_cases hd : m ∈ done
        · simpa [pending, successors, hm, hd] using ih
        · have hrest : (successors ((m, k) :: rest) n ++ pending ((m, k) :: rest) (done ++ [n])) =
              successors rest n ++ k :: pending rest (done ++ [n]) := by
            simp [pending, successors, hm, hd]
          rw [hrest]
          have hcons : pending ((m, k) :: rest) done = k :: pending rest done := by
            simp [pending, hd]
          rw [hcons]
          exact (ih.cons k).trans List.perm_middle.symm

/-! ## The two loops -/

/-- Taking away the edges to `targets`, with the edges to `rest` left after it: each target
that has no edge left is queued once. -/
theorem foldl_relax (targets rest queue : List ν) :
    ∃ new, targets.foldl relax (fun n => (targets ++ rest).count n, queue) =
        (fun n => rest.count n, queue ++ new) ∧
      new.Nodup ∧ ∀ n, n ∈ new ↔ n ∈ targets ∧ n ∉ rest := by
  induction targets generalizing queue with
  | nil => exact ⟨[], by simp⟩
  | cons t targets ih =>
      have hcount : Function.update (fun n => (t :: targets ++ rest).count n) t
          ((t :: targets ++ rest).count t - 1) = fun n => (targets ++ rest).count n := by
        funext n
        by_cases hn : n = t
        · subst hn
          simp
        · simp [Function.update_of_ne hn, List.count_cons_of_ne (Ne.symm hn)]
      have hlast : (t :: targets ++ rest).count t - 1 = 0 ↔ t ∉ targets ∧ t ∉ rest := by
        simp [List.count_eq_zero]
      rw [List.foldl_cons, relax, hcount]
      by_cases ht : t ∉ targets ∧ t ∉ rest
      · rw [if_pos (hlast.mpr ht)]
        obtain ⟨new, heq, hnodup, hmem⟩ := ih (queue ++ [t])
        refine ⟨t :: new, by rw [heq, List.append_assoc, List.singleton_append], ?_, ?_⟩
        · exact List.nodup_cons.mpr ⟨fun h => ht.1 ((hmem t).mp h).1, hnodup⟩
        · intro n
          rw [List.mem_cons, List.mem_cons, hmem n]
          constructor
          · rintro (rfl | ⟨h, hr⟩)
            · exact ⟨.inl rfl, ht.2⟩
            · exact ⟨.inr h, hr⟩
          · rintro ⟨rfl | h, hr⟩
            · exact .inl rfl
            · exact .inr ⟨h, hr⟩
      · rw [if_neg (fun h => ht (hlast.mp h))]
        obtain ⟨new, heq, hnodup, hmem⟩ := ih queue
        refine ⟨new, heq, hnodup, ?_⟩
        intro n
        rw [hmem n, List.mem_cons]
        constructor
        · rintro ⟨h, hr⟩
          exact ⟨.inr h, hr⟩
        · rintro ⟨rfl | h, hr⟩
          · by_cases hin : n ∈ targets
            · exact ⟨hin, hr⟩
            · exact absurd ⟨hin, hr⟩ ht
          · exact ⟨h, hr⟩

/-- What the loop keeps: the counts are those of the edges left, no node is queued twice,
and a node is queued or done exactly when no edge into it is left. -/
structure Draining (nodes : List ν) (edges : List (ν × ν)) (done : List ν) (count : ν → ℕ)
    (queue : List ν) : Prop where
  count_eq : count = fun n => (pending edges done).count n
  nodup : (done ++ queue).Nodup
  clear : ∀ n ∈ done ++ queue, n ∉ pending edges done
  waiting : ∀ n ∈ nodes, n ∉ done ++ queue → n ∈ pending edges done
  inside : ∀ n ∈ done ++ queue, n ∈ nodes

/-- One node is done. -/
theorem Draining.step {done queue : List ν} {count : ν → ℕ} {n : ν}
    (hedges : ∀ e ∈ edges, e.2 ∈ nodes) (h : Draining nodes edges done count (n :: queue)) :
    Draining nodes edges (done ++ [n]) ((successors edges n).foldl relax (count, queue)).1
      ((successors edges n).foldl relax (count, queue)).2 := by
  have hn : n ∉ done := by
    intro hd
    have hnodup := h.nodup
    rw [List.nodup_append] at hnodup
    exact hnodup.2.2 n hd n List.mem_cons_self rfl
  have hperm := pending_perm edges hn
  have hcount : count = fun k => (successors edges n ++ pending edges (done ++ [n])).count k := by
    rw [h.count_eq]
    funext k
    exact hperm.count_eq k
  obtain ⟨new, heq, hnodup, hmem⟩ :=
    foldl_relax (successors edges n) (pending edges (done ++ [n])) queue
  rw [hcount, heq]
  have hold : (done ++ [n] ++ queue).Nodup := by
    rw [List.append_assoc]
    exact h.nodup
  have hsub : ∀ k, k ∈ pending edges (done ++ [n]) → k ∈ pending edges done := fun k hk =>
    hperm.mem_iff.mpr (List.mem_append_right _ hk)
  have hfresh : ∀ k ∈ new, k ∉ done ++ n :: queue := by
    intro k hk hin
    exact h.clear k hin (hperm.mem_iff.mpr (List.mem_append_left _ ((hmem k).mp hk).1))
  refine ⟨rfl, ?_, ?_, ?_, ?_⟩
  · rw [← List.append_assoc, List.nodup_append]
    refine ⟨hold, hnodup, ?_⟩
    rintro k hk k' hk' rfl
    exact hfresh k hk' (by simpa using hk)
  · intro k hk hpend
    rw [← List.append_assoc, List.mem_append] at hk
    rcases hk with hk | hk
    · exact h.clear k (by simpa using hk) (hsub k hpend)
    · exact ((hmem k).mp hk).2 hpend
  · intro k hk hout
    rw [← List.append_assoc, List.mem_append, not_or] at hout
    have hbefore := h.waiting k hk (by simpa using hout.1)
    rcases List.mem_append.mp (hperm.mem_iff.mp hbefore) with hsucc | hpend
    · by_contra hno
      exact hout.2 ((hmem k).mpr ⟨hsucc, hno⟩)
    · exact hpend
  · intro k hk
    rw [← List.append_assoc, List.mem_append] at hk
    rcases hk with hk | hk
    · exact h.inside k (by simpa using hk)
    · exact hedges (n, k) (mem_successors.mp ((hmem k).mp hk).1)

/-- The order the loop continues is topological, and its nodes are those of the graph. -/
theorem Draining.topological {fuel : ℕ} {done queue : List ν} {count : ν → ℕ}
    (hedges : ∀ e ∈ edges, e.2 ∈ nodes) (h : Draining nodes edges done count queue)
    (hdone : Topological edges done) :
    Topological edges (done ++ drain edges fuel count queue) ∧
      ∀ n ∈ done ++ drain edges fuel count queue, n ∈ nodes := by
  have hstop : Topological edges (done ++ []) ∧ ∀ n ∈ done ++ [], n ∈ nodes := by
    rw [List.append_nil]
    exact ⟨hdone, fun n hn => h.inside n (List.mem_append_left _ hn)⟩
  induction fuel generalizing done queue count with
  | zero => exact hstop
  | succ fuel ih =>
      cases queue with
      | nil => exact hstop
      | cons n queue =>
          have hnext : Topological edges (done ++ [n]) := by
            have hnodup : (done ++ [n]).Nodup := by
              have hall := h.nodup
              rw [← List.singleton_append, ← List.append_assoc, List.nodup_append] at hall
              exact hall.1
            refine ⟨hnodup, ?_⟩
            intro pre k post heq m hm
            rcases List.eq_nil_or_concat post with rfl | ⟨post, z, rfl⟩
            · obtain ⟨hpre, hk⟩ := List.append_inj' heq rfl
              obtain rfl : n = k := by simpa using hk
              by_contra hnot
              rw [← hpre] at hnot
              exact h.clear n (by simp) (mem_pending.mpr ⟨m, hm, hnot⟩)
            · rw [List.concat_eq_append, ← List.cons_append, ← List.append_assoc] at heq
              exact hdone.sources_before pre k post (List.append_inj' heq rfl).1 m hm
          have hstep := h.step hedges
          have hrest := ih hstep hnext (by
            rw [List.append_nil]
            exact ⟨hnext, fun k hk => hstep.inside k (List.mem_append_left _ hk)⟩)
          simpa [drain] using hrest

/-! ## The order -/

/-- A loop that stops before its fuel is used up does not depend on it. -/
theorem drain_succ {fuel : ℕ} {count : ν → ℕ} {queue : List ν}
    (h : (drain edges fuel count queue).length < fuel) :
    drain edges (fuel + 1) count queue = drain edges fuel count queue := by
  induction fuel generalizing count queue with
  | zero => simp at h
  | succ fuel ih =>
      cases queue with
      | nil => rfl
      | cons n queue =>
          rw [drain, List.length_cons] at h
          rw [drain, drain, ih (by omega)]

/-- A loop that stops before its fuel is used up has emptied its queue. -/
theorem Draining.drained {fuel : ℕ} {done queue : List ν} {count : ν → ℕ}
    (hedges : ∀ e ∈ edges, e.2 ∈ nodes) (h : Draining nodes edges done count queue)
    (hfuel : (drain edges fuel count queue).length < fuel) :
    ∃ count', Draining nodes edges (done ++ drain edges fuel count queue) count' [] := by
  induction fuel generalizing done queue count with
  | zero => simp at hfuel
  | succ fuel ih =>
      cases queue with
      | nil => exact ⟨count, by simpa [drain] using h⟩
      | cons n queue =>
          rw [drain, List.length_cons] at hfuel
          obtain ⟨count', hrest⟩ := ih (h.step hedges) (by omega)
          exact ⟨count', by simpa [drain] using hrest⟩

/-- With an empty queue, and a rank that grows along every edge, all nodes are done. -/
theorem Draining.mem_of_rank {done : List ν} {count : ν → ℕ} {rank : ν → ℕ}
    (h : Draining nodes edges done count []) (hsources : ∀ e ∈ edges, e.1 ∈ nodes)
    (hrank : ∀ e ∈ edges, rank e.1 < rank e.2) {n : ν} (hn : n ∈ nodes) : n ∈ done := by
  -- induction on the rank: a node that is not done has a predecessor that is not done
  induction hr : rank n using Nat.strong_induction_on generalizing n with
  | _ r ih =>
      subst hr
      by_contra hnot
      have hpending := h.waiting n hn (by simpa using hnot)
      obtain ⟨m, hedge, hm⟩ := mem_pending.mp hpending
      exact hm (ih (rank m) (hrank _ hedge) (hsources _ hedge) rfl)

section Order

variable (hnodup : roots.Nodup) (hroots : ∀ n, n ∈ roots ↔ n ∈ nodes ∧ indegree edges n = 0)
  (hedges : ∀ e ∈ edges, e.2 ∈ nodes)
include hnodup hroots

theorem draining_start : Draining nodes edges [] (indegree edges) roots where
  count_eq := by
    rw [pending_nil]
    rfl
  nodup := hnodup
  clear n hn := by
    rw [pending_nil, ← List.count_eq_zero]
    exact ((hroots n).mp hn).2
  waiting n hn hout := by
    rw [pending_nil]
    by_contra hno
    exact hout ((hroots n).mpr ⟨hn, List.count_eq_zero.mpr hno⟩)
  inside n hn := ((hroots n).mp hn).1

include hedges

theorem kahn_topological (fuel : ℕ) :
    Topological edges (drain edges fuel (indegree edges) roots) ∧
      ∀ n ∈ drain edges fuel (indegree edges) roots, n ∈ nodes :=
  (draining_start hnodup hroots).topological hedges
    ⟨List.nodup_nil, fun pre n post h => by simp at h⟩

theorem length_kahn_le (fuel : ℕ) :
    (drain edges fuel (indegree edges) roots).length ≤ nodes.length := by
  obtain ⟨htop, hsub⟩ := kahn_topological hnodup hroots hedges fuel
  exact (List.subperm_of_subset htop.nodup hsub).length_le

/-- With as many nodes in the order as there are, every node is in it. -/
theorem mem_kahn (hlen : (kahn nodes roots edges).length = nodes.length) {n : ν} (hn : n ∈ nodes) :
    n ∈ kahn nodes roots edges := by
  obtain ⟨htop, hsub⟩ := kahn_topological hnodup hroots hedges (nodes.length + 1)
  have hperm := (List.subperm_of_subset htop.nodup hsub).perm_of_length_le (Nat.le_of_eq hlen.symm)
  exact hperm.mem_iff.mpr hn

/-- The fuel of the loop is enough: more changes nothing. -/
theorem drain_eq_kahn {fuel : ℕ} (hfuel : nodes.length < fuel) :
    drain edges fuel (indegree edges) roots = kahn nodes roots edges := by
  induction fuel, hfuel using Nat.le_induction with
  | base => rfl
  | succ fuel hle ih =>
      rw [drain_succ (Nat.lt_of_le_of_lt (length_kahn_le hnodup hroots hedges fuel) hle), ih]

/-- Where a rank grows along every edge, the order has all the nodes. -/
theorem length_kahn_of_rank (hnodes : nodes.Nodup) (hsources : ∀ e ∈ edges, e.1 ∈ nodes)
    {rank : ν → ℕ} (hrank : ∀ e ∈ edges, rank e.1 < rank e.2) :
    (kahn nodes roots edges).length = nodes.length := by
  have hle := length_kahn_le hnodup hroots hedges (nodes.length + 1)
  obtain ⟨count, hdrained⟩ := (draining_start hnodup hroots).drained hedges (Nat.lt_succ_of_le hle)
  have hsub : nodes ⊆ kahn nodes roots edges := by
    intro n hn
    exact hdrained.mem_of_rank hsources hrank hn
  exact Nat.le_antisymm hle (List.subperm_of_subset hnodes hsub).length_le

end Order

/-! ## Cycles -/

/-- No way along the edges leads back to where it began. -/
def Acyclic (edges : List (ν × ν)) : Prop :=
  ∀ n, ¬ Relation.TransGen (fun a b => (a, b) ∈ edges) n n

omit [DecidableEq ν] in
/-- A rank that grows along every edge leaves no cycle. -/
theorem Acyclic.of_rank (rank : ν → ℕ) (hrank : ∀ e ∈ edges, rank e.1 < rank e.2) :
    Acyclic edges := by
  have hway : ∀ a b, Relation.TransGen (fun a b => (a, b) ∈ edges) a b → rank a < rank b := by
    intro a b hab
    induction hab with
    | single hedge => exact hrank _ hedge
    | tail _ hedge ih => exact Nat.lt_trans ih (hrank _ hedge)
  intro n hn
  exact Nat.lt_irrefl _ (hway n n hn)

/-- Without a cycle, the number of sources from which a node is reached grows along every edge. -/
theorem Acyclic.exists_rank (h : Acyclic edges) :
    ∃ rank : ν → ℕ, ∀ e ∈ edges, rank e.1 < rank e.2 := by
  classical
  let before (n : ν) : Finset ν := (edges.map Prod.fst).toFinset.filter fun m =>
    Relation.TransGen (fun a b => (a, b) ∈ edges) m n
  refine ⟨fun n => (before n).card, ?_⟩
  rintro ⟨a, b⟩ hedge
  refine Finset.card_lt_card (Finset.ssubset_iff_of_subset ?_ |>.mpr ⟨a, ?_, ?_⟩)
  · intro m hm
    obtain ⟨hsource, hway⟩ := Finset.mem_filter.mp hm
    exact Finset.mem_filter.mpr ⟨hsource, hway.tail hedge⟩
  · refine Finset.mem_filter.mpr ⟨?_, .single hedge⟩
    exact List.mem_toFinset.mpr (List.mem_map_of_mem hedge)
  · intro hmem
    exact h a (Finset.mem_filter.mp hmem).2

omit [DecidableEq ν] in
/-- A successor is not among the nodes before. -/
theorem Topological.target_notMem {m n : ν} {pre post : List ν}
    (h : Topological edges (pre ++ m :: post)) (hmn : (m, n) ∈ edges) : n ∉ pre := by
  intro hn
  obtain ⟨a, b, rfl⟩ := List.append_of_mem hn
  rw [List.append_assoc, List.cons_append] at h
  have hm := h.sources_before a n _ rfl m hmn
  have hnodup := h.nodup
  rw [List.nodup_append] at hnodup
  exact hnodup.2.2 m hm m (by simp) rfl

/-- A predecessor has the smaller position. -/
theorem Topological.idxOf_lt {order : List ν} (h : Topological edges order) {m n : ν}
    (hmn : (m, n) ∈ edges) (hn : n ∈ order) : order.idxOf m < order.idxOf n := by
  obtain ⟨pre, post, rfl⟩ := List.append_of_mem hn
  have hm := h.sources_before pre n post rfl m hmn
  have hnot : n ∉ pre := by
    have hnodup := h.nodup
    rw [List.nodup_append] at hnodup
    intro hpre
    exact hnodup.2.2 n hpre n List.mem_cons_self rfl
  rw [List.idxOf_append_of_mem hm, List.idxOf_append_of_notMem hnot, List.idxOf_cons_self]
  exact Nat.lt_of_lt_of_le (List.idxOf_lt_length_iff.mpr hm) (Nat.le_add_right _ _)

/-! ## Ways over new nodes -/

/-- The edges of a way from a node over others to a last one. -/
def trail (m n : ν) : List ν → List (ν × ν)
  | [] => [(m, n)]
  | b :: rest => (m, b) :: trail b n rest

/-- A node that is on no edge. -/
def Detached (edges : List (ν × ν)) (b : ν) : Prop := ∀ e ∈ edges, e.1 ≠ b ∧ e.2 ≠ b

/-- A new node can stand in the middle of an edge. -/
theorem exists_rank_between {rank : ν → ℕ} (hrank : ∀ e ∈ edges, rank e.1 < rank e.2) {m n b : ν}
    (hmn : (m, n) ∈ edges) (hb : Detached edges b) :
    ∃ rank' : ν → ℕ, ∀ e ∈ edges ++ [(m, b), (b, n)], rank' e.1 < rank' e.2 := by
  refine ⟨fun x => if x = b then 2 * rank m + 1 else 2 * rank x, fun e he => ?_⟩
  have hlt : rank m < rank n := hrank _ hmn
  have hm : m ≠ b := (hb _ hmn).1
  have hn : n ≠ b := (hb _ hmn).2
  rcases List.mem_append.mp he with he | he
  · have hold := hrank e he
    simp only [if_neg (hb e he).1, if_neg (hb e he).2]
    omega
  · rcases List.mem_pair.mp he with rfl | rfl
    · simp only [if_neg hm, if_true]
      omega
    · simp only [if_neg hn, if_true]
      omega

/-- So can any number of them: a way over new nodes along an edge makes no cycle. -/
theorem exists_rank_trail {rank : ν → ℕ} (hrank : ∀ e ∈ edges, rank e.1 < rank e.2) {m n : ν}
    (hmn : (m, n) ∈ edges) {between : List ν} (hnodup : between.Nodup)
    (hbetween : ∀ b ∈ between, Detached edges b) :
    ∃ rank' : ν → ℕ, ∀ e ∈ edges ++ trail m n between, rank' e.1 < rank' e.2 := by
  induction between generalizing edges rank m with
  | nil =>
      refine ⟨rank, fun e he => ?_⟩
      rcases List.mem_append.mp he with he | he
      · exact hrank e he
      · rw [List.mem_singleton.mp he]
        exact hrank _ hmn
  | cons b rest ih =>
      obtain ⟨hb, hrest⟩ := List.nodup_cons.mp hnodup
      have hapart := hbetween b List.mem_cons_self
      obtain ⟨rank₁, hrank₁⟩ := exists_rank_between hrank hmn hapart
      have hfresh : ∀ c ∈ rest, Detached (edges ++ [(m, b), (b, n)]) c := by
        intro c hc e he
        have hcb : b ≠ c := fun h => hb (h ▸ hc)
        have hold := hbetween c (List.mem_cons_of_mem _ hc)
        rcases List.mem_append.mp he with he | he
        · exact hold e he
        · rcases List.mem_pair.mp he with rfl | rfl
          · exact ⟨(hold _ hmn).1, hcb⟩
          · exact ⟨hcb, (hold _ hmn).2⟩
      have hbn : (b, n) ∈ edges ++ [(m, b), (b, n)] := by simp
      obtain ⟨rank', hrank'⟩ := ih hrank₁ hbn hrest hfresh
      refine ⟨rank', fun e he => hrank' e ?_⟩
      simp only [trail, List.mem_append, List.mem_cons, List.not_mem_nil, or_false] at he ⊢
      tauto

end Nazh.Lib
