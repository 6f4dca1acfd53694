/-
Numbering the elements of a list by kind: with a counter for each kind, or
by their place among the elements of the kind.

`numbered` keeps the counters in one pass over the list, as a loop with a
table of counters does. A filter forgets the other kinds and numbers what is
left. `mem_numbered_iff` says that the two agree: the elements with the
number `k + 1` of a kind are the one at place `k` of the filter. The
induction is over the list, with the counters general: the element at place
`k` of the rest has the number its counter began with, and `k` more.
-/
import Mathlib.Data.List.Basic

namespace FastRep

variable {α κ : Type} [DecidableEq κ] {key : α → κ} {counts : κ → Nat} {l : List α} {x : α}
  {n k : Nat}

/-- Every element with its number: one more than those of its kind so far. -/
def numbered (key : α → κ) (counts : κ → Nat) : List α → List (α × Nat)
  | [] => []
  | x :: rest =>
      (x, counts (key x) + 1) :: numbered key
        (fun c => if c = key x then counts (key x) + 1 else counts c) rest

/-- Numbering a list keeps its elements and their order. -/
theorem numbered_fst : (numbered key counts l).map (·.1) = l := by
  induction l generalizing counts with
  | nil => rfl
  | cons y rest ih => rw [numbered, List.map_cons, ih]

/-- A number is beyond the counter the numbering began with. -/
theorem lt_of_mem_numbered (h : (x, n) ∈ numbered key counts l) : counts (key x) < n := by
  induction l generalizing counts with
  | nil => cases h
  | cons y rest ih =>
      rcases List.mem_cons.mp h with h | h
      · cases h
        exact Nat.lt_succ_self _
      · have := ih h
        split_ifs at this with hkey
        · rw [hkey]
          omega
        · exact this

/-- The counters number the elements of a kind as a filter lists them. -/
theorem mem_numbered_iff (counts : κ → Nat) : (x, counts (key x) + k + 1) ∈ numbered key counts l ↔
    (l.filter fun y => key y = key x)[k]? = some x := by
  induction l generalizing counts k with
  | nil => simp [numbered]
  | cons y rest ih =>
      rw [numbered, List.mem_cons, Prod.mk.injEq]
      by_cases hkey : key y = key x
      · rw [List.filter_cons_of_pos (by simpa using hkey), hkey]
        cases k with
        | zero =>
            have hrest : (x, counts (key x) + 0 + 1) ∉ numbered key
                (fun c => if c = key x then counts (key x) + 1 else counts c) rest := by
              intro h
              have := lt_of_mem_numbered h
              rw [if_pos rfl] at this
              omega
            simp only [hrest, or_false, List.getElem?_cons_zero, Option.some.injEq]
            exact ⟨fun h => h.1.symm, fun h => ⟨h.symm, trivial⟩⟩
        | succ k =>
            rw [List.getElem?_cons_succ, ← ih fun c =>
              if c = key x then counts (key x) + 1 else counts c, if_pos rfl]
            rw [show counts (key x) + 1 + k + 1 = counts (key x) + (k + 1) + 1 by omega]
            exact or_iff_right fun h => absurd h.2 (by omega)
      · rw [List.filter_cons_of_neg (by simpa using hkey), ← ih fun c =>
          if c = key y then counts (key y) + 1 else counts c, if_neg (Ne.symm hkey)]
        exact or_iff_right fun h => hkey (congrArg key h.1.symm)

end FastRep
