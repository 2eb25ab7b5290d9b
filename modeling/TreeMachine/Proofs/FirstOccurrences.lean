import Mathlib.Data.Finset.Card
import Mathlib.Data.List.Induction
import Mathlib.Data.List.Perm.Basic

set_option autoImplicit false

namespace TreeMachine

variable {α : Type} [DecidableEq α]

theorem eraseDups_concat (xs : List α) (x : α) :
    (xs ++ [x]).eraseDups = xs.eraseDups ++ if x ∈ xs then [] else [x] := by
  rw [List.eraseDups_append]
  by_cases hx : x ∈ xs
  · simp [List.removeAll, hx]
  · simp [List.removeAll, hx, List.eraseDups_cons]

theorem nodup_eraseDups (xs : List α) : xs.eraseDups.Nodup := by
  induction xs using List.reverseRecOn with
  | nil => exact .nil
  | append_singleton xs x ih =>
    rw [eraseDups_concat]
    split
    · rwa [List.append_nil]
    · rename_i hx
      refine List.pairwise_append.2 ⟨ih, List.pairwise_singleton _ _, fun y hy z hz heq => ?_⟩
      obtain rfl := List.mem_singleton.1 hz
      exact hx (List.mem_eraseDups.1 (heq ▸ hy))

/-- What appears later is added at the end, if it is new. -/
theorem eraseDups_append_filter (xs ys : List α) :
    (xs ++ ys).eraseDups = xs.eraseDups ++ ys.eraseDups.filter (· ∉ xs) := by
  induction ys using List.reverseRecOn with
  | nil => simp
  | append_singleton ys y ih =>
    rw [← List.append_assoc, eraseDups_concat, eraseDups_concat, ih, List.filter_append,
      List.append_assoc]
    by_cases hx : y ∈ xs <;> by_cases hy : y ∈ ys <;> simp [hx, hy]

theorem length_eraseDups (xs : List α) : xs.eraseDups.length = xs.toFinset.card := by
  rw [← List.toFinset_card_of_nodup (nodup_eraseDups xs)]
  congr 1
  ext x
  simp [List.mem_eraseDups]

theorem perm_eraseDups {xs ys : List α} (h : xs.Perm ys) : xs.eraseDups.Perm ys.eraseDups := by
  refine (List.perm_ext_iff_of_nodup (nodup_eraseDups xs) (nodup_eraseDups ys)).2 fun x => ?_
  rw [List.mem_eraseDups, List.mem_eraseDups, h.mem_iff]

end TreeMachine
