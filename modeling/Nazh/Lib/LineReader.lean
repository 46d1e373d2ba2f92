import Mathlib.Tactic.Common

/-!
# Reading up to a delimiter

A reader asks its source for items until it has one that ends a line. The source may also say
that nothing came in time, that it is closed, or that it has failed: then the reader stops with
what it has.

## Main definitions

* `Arrival` — what a source gives; `readUntil` — a line, and how it ended.
* `Unended` — no item that came ends a line.
* `sinceTimeout` — what came after the last timeout.
* `Delivers` — items come, with timeouts between them.

## Main results

* `readUntil_of_unended` — such a reader waits for more, or it stops at a timeout.
-/

namespace Nazh.Lib

/-- What a source gives. -/
inductive Arrival (α : Type)
  | item (a : α)
  | timedOut
  | closed
  | failed
  deriving DecidableEq, Repr

/-- Why a reader stopped. -/
inductive LineEnd
  | delimiter
  | timedOut
  | closed
  | failed
  deriving DecidableEq, Repr

variable {α : Type}

/-- Add items to a line until one of them ends it, if the source does not stop the reader before.
There is no answer as long as the reader waits. -/
def readUntil [DecidableEq α] (delimiter : α) (line : List α) :
    List (Arrival α) → Option (LineEnd × List α × List (Arrival α))
  | [] => none
  | .item a :: rest =>
      if a = delimiter then some (.delimiter, line ++ [a], rest)
      else readUntil delimiter (line ++ [a]) rest
  | .timedOut :: rest => some (.timedOut, line, rest)
  | .closed :: rest => some (.closed, line, rest)
  | .failed :: rest => some (.failed, line, rest)

/-- The items that came. -/
def received (arrivals : List (Arrival α)) : List α :=
  arrivals.filterMap fun
    | .item a => some a
    | _ => none

/-- What came after the last timeout, behind a line that was begun. -/
def sinceTimeout (line : List α) : List (Arrival α) → List α
  | [] => line
  | .item a :: rest => sinceTimeout (line ++ [a]) rest
  | .timedOut :: rest => sinceTimeout [] rest
  | .closed :: rest => sinceTimeout line rest
  | .failed :: rest => sinceTimeout line rest

/-- Items and timeouts came, and no item ends a line. -/
def Unended (delimiter : α) (arrivals : List (Arrival α)) : Prop :=
  ∀ arrival ∈ arrivals, arrival = .timedOut ∨ ∃ a, a ≠ delimiter ∧ arrival = .item a

/-- Items come, with timeouts between them. -/
def Delivers (items : List α) (arrivals : List (Arrival α)) : Prop :=
  received arrivals = items ∧ ∀ arrival ∈ arrivals, arrival = .timedOut ∨ ∃ a, arrival = .item a

variable {delimiter : α} {arrivals : List (Arrival α)}

theorem Delivers.unended {items : List α} (h : Delivers items arrivals)
    (hitems : ∀ a ∈ items, a ≠ delimiter) : Unended delimiter arrivals := by
  intro arrival harrival
  rcases h.2 arrival harrival with htimeout | ⟨a, rfl⟩
  · exact .inl htimeout
  · refine .inr ⟨a, hitems a ?_, rfl⟩
    rw [← h.1, received, List.mem_filterMap]
    exact ⟨.item a, harrival, rfl⟩

theorem Unended.tail {arrival : Arrival α} (h : Unended delimiter (arrival :: arrivals)) :
    Unended delimiter arrivals := fun b hb => h b (List.mem_cons_of_mem arrival hb)

/-- A reader of such a source goes on to what comes after it, or stops at a timeout. -/
theorem readUntil_of_unended [DecidableEq α] (h : Unended delimiter arrivals) (line : List α)
    (later : List (Arrival α)) :
    readUntil delimiter line (arrivals ++ later) =
        readUntil delimiter (sinceTimeout line arrivals) later ∨
      ∃ line' rest, readUntil delimiter line (arrivals ++ later) =
          some (.timedOut, line', rest ++ later) ∧
        rest.length < arrivals.length ∧ Unended delimiter rest ∧
        sinceTimeout line arrivals = sinceTimeout [] rest := by
  induction arrivals generalizing line with
  | nil => exact .inl rfl
  | cons arrival arrivals ih =>
      rcases h arrival List.mem_cons_self with rfl | ⟨a, ha, rfl⟩
      · exact .inr ⟨line, arrivals, rfl, Nat.lt_succ_self _, h.tail, rfl⟩
      · have hread : readUntil delimiter line (.item a :: arrivals ++ later) =
            readUntil delimiter (line ++ [a]) (arrivals ++ later) := if_neg ha
        rw [hread, sinceTimeout]
        rcases ih h.tail (line ++ [a]) with hnext | ⟨line', rest, hstop, hlt, hrest, hsince⟩
        · exact .inl hnext
        · exact .inr ⟨line', rest, hstop, Nat.lt_succ_of_lt hlt, hrest, hsince⟩

/-- What came after the last timeout is the end of all that came. -/
theorem sinceTimeout_suffix (line : List α) (arrivals : List (Arrival α)) :
    sinceTimeout line arrivals <:+ line ++ received arrivals := by
  induction arrivals generalizing line with
  | nil => simp [sinceTimeout, received]
  | cons arrival arrivals ih =>
      cases arrival with
      | item a => simpa [sinceTimeout, received] using ih (line ++ [a])
      | timedOut =>
          have hnext := ih []
          exact hnext.trans (List.suffix_append line _)
      | closed => simpa [sinceTimeout, received] using ih line
      | failed => simpa [sinceTimeout, received] using ih line

end Nazh.Lib
