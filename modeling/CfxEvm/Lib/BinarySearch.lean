import Mathlib.Data.List.Basic

/-!
# Binary search

Search in a sorted list, which gives the place of the element, or the place where it would have to
be inserted.
-/

namespace Lib

section
variable {α : Type} [LT α] [DecidableLT α]

/-- The search in the window from `left` up to `right`, which is halved each time. -/
def searchWindow (xs : List α) (x : α) : ℕ → ℕ → ℕ → Except ℕ ℕ
  | 0, left, _ => .error left
  | fuel + 1, left, right =>
    if left < right then
      let mid := left + (right - left) / 2
      match xs[mid]? with
      | none => .error left
      | some y =>
        if y < x then searchWindow xs x fuel (mid + 1) right
        else if x < y then searchWindow xs x fuel left mid
        else .ok mid
    else .error left

/-- Searches for the element. The window gets smaller each time, so it is empty in the end. -/
def binary_search (xs : List α) (x : α) : Except ℕ ℕ := searchWindow xs x xs.length 0 xs.length

/-- What is found: the element, or the place between the smaller and the greater ones. -/
def Searched (xs : List α) (x : α) : Except ℕ ℕ → Prop
  | .ok i => xs[i]? = some x
  | .error i => i ≤ xs.length ∧ (∀ j y, j < i → xs[j]? = some y → y < x) ∧
      ∀ j y, i ≤ j → xs[j]? = some y → x < y

end

section
variable {α : Type} [LE α] [LT α] [DecidableLT α] [Std.LawfulOrderLT α] [Std.IsLinearOrder α]

theorem searchWindow_spec {xs : List α} (hsorted : xs.Pairwise (· < ·)) (x : α)
    (fuel left right : ℕ)
    (hfuel : right - left ≤ fuel) (hle : left ≤ right) (hright : right ≤ xs.length)
    (hbelow : ∀ j y, j < left → xs[j]? = some y → y < x)
    (habove : ∀ j y, right ≤ j → xs[j]? = some y → x < y) :
    Searched xs x (searchWindow xs x fuel left right) := by
  have hmono : ∀ {i j : ℕ} {y z : α}, i < j → xs[i]? = some y → xs[j]? = some z → y < z := by
    intro i j y z hij hy hz
    obtain ⟨hi, rfl⟩ := List.getElem?_eq_some_iff.mp hy
    obtain ⟨hj, rfl⟩ := List.getElem?_eq_some_iff.mp hz
    exact List.pairwise_iff_getElem.mp hsorted i j hi hj hij
  -- the window is halved until it is empty or the element is found
  induction fuel generalizing left right with
  | zero =>
    have hempty : left = right := by omega
    exact ⟨by omega, hbelow, hempty ▸ habove⟩
  | succ fuel ih =>
    rw [searchWindow]
    by_cases hlt : left < right
    · rw [if_pos hlt]
      have hmid : left + (right - left) / 2 < xs.length := by omega
      have hget := List.getElem?_eq_getElem hmid
      generalize hm : left + (right - left) / 2 = mid at hmid hget
      dsimp only
      rw [hget]
      dsimp only
      by_cases hless : xs[mid] < x
      · rw [if_pos hless]
        refine ih (mid + 1) right (by omega) (by omega) hright ?_ habove
        intro j y hj hy
        rcases Nat.lt_succ_iff_lt_or_eq.mp hj with hj | rfl
        · exact Std.lt_trans (hmono hj hy hget) hless
        · rw [hget] at hy
          cases hy
          exact hless
      · rw [if_neg hless]
        by_cases hgreater : x < xs[mid]
        · rw [if_pos hgreater]
          refine ih left mid (by omega) (by omega) (by omega) hbelow ?_
          intro j y hj hy
          rcases Nat.lt_or_eq_of_le hj with hj | rfl
          · exact Std.lt_trans hgreater (hmono hj hget hy)
          · rw [hget] at hy
            cases hy
            exact hgreater
        · rw [if_neg hgreater]
          have hfound : xs[mid] = x :=
            Std.le_antisymm (Std.not_lt.mp hgreater) (Std.not_lt.mp hless)
          show xs[mid]? = some x
          rw [hget, hfound]
    · rw [if_neg hlt]
      have hempty : left = right := by omega
      exact ⟨by omega, hbelow, hempty ▸ habove⟩

theorem binary_search_spec {xs : List α} (hsorted : xs.Pairwise (· < ·)) (x : α) :
    Searched xs x (binary_search xs x) := by
  refine searchWindow_spec hsorted x xs.length 0 xs.length (by omega) (by omega)
    (Nat.le_refl _) ?_ ?_
  · intro j y hj
    omega
  · intro j y hj hy
    rw [List.getElem?_eq_none hj] at hy
    cases hy

end

end Lib
