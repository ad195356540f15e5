import Mathlib.Data.List.Infix
import Mathlib.Tactic.Common

/-!
# Brackets

A list whose items open a bracket, close one, or do neither. It is balanced if no bracket is closed
before it was opened and all are closed in the end. A forest is such a list with its structure:
what stands between an opening item and the item that closes it is a forest again.
-/

namespace Lib

/-- What an item of a list does. -/
inductive Bracket
  | opening
  | closing
  | neutral
  deriving DecidableEq, Repr

namespace Bracket

variable {α : Type} (kind : α → Bracket)

/-- The number of items that open a bracket. -/
def opens (l : List α) : Nat := l.countP fun a => kind a = .opening

/-- The number of items that close a bracket. -/
def closes (l : List α) : Nat := l.countP fun a => kind a = .closing

/-- Nothing is closed before it was opened, and everything is closed. -/
def Balanced (l : List α) : Prop :=
  (∀ p, p <+: l → closes kind p ≤ opens kind p) ∧ closes kind l = opens kind l

/-- The number of open brackets after the list when there are `d` before it, if none is closed that
    is not open. -/
def depth : List α → Nat → Option Nat
  | [], d => some d
  | a :: l, d =>
    match kind a, d with
    | .opening, d => depth l (d + 1)
    | .closing, 0 => none
    | .closing, d + 1 => depth l d
    | .neutral, d => depth l d

/-- The structure of a balanced list. -/
inductive Forest
  | nil
  | leaf (a : α) (ha : kind a = .neutral) (rest : Forest)
  | node (a : α) (ha : kind a = .opening) (inner : Forest) (b : α) (hb : kind b = .closing)
      (rest : Forest)

variable {kind}

/-- The list with this structure. -/
def Forest.flatten : Forest kind → List α
  | .nil => []
  | .leaf a _ rest => a :: rest.flatten
  | .node a _ inner b _ rest => a :: (inner.flatten ++ b :: rest.flatten)

/-! ## Counting -/

theorem opens_cons (a : α) (l : List α) :
    opens kind (a :: l) = opens kind l + if kind a = .opening then 1 else 0 := by
  simp [opens, List.countP_cons]

theorem closes_cons (a : α) (l : List α) :
    closes kind (a :: l) = closes kind l + if kind a = .closing then 1 else 0 := by
  simp [closes, List.countP_cons]

/-- The prefixes of a list with a first item. -/
theorem forall_prefix_cons {a : α} {l : List α} {P : List α → Prop} :
    (∀ p, p <+: a :: l → P p) ↔ P [] ∧ ∀ p, p <+: l → P (a :: p) := by
  constructor
  · intro h
    exact ⟨h [] List.nil_prefix, fun p hp => h _ (List.cons_prefix_cons.mpr ⟨rfl, hp⟩)⟩
  · rintro ⟨hnil, hcons⟩ p hp
    cases p with
    | nil => exact hnil
    | cons b p =>
      obtain ⟨rfl, hp'⟩ := List.cons_prefix_cons.mp hp
      exact hcons p hp'

section
variable {a : α} {l : List α} {d : Nat}

theorem depth_opening (h : kind a = .opening) : depth kind (a :: l) d = depth kind l (d + 1) := by
  simp [depth, h]

theorem depth_closing_zero (h : kind a = .closing) : depth kind (a :: l) 0 = none := by
  simp [depth, h]

theorem depth_closing (h : kind a = .closing) : depth kind (a :: l) (d + 1) = depth kind l d := by
  simp [depth, h]

theorem depth_neutral (h : kind a = .neutral) : depth kind (a :: l) d = depth kind l d := by
  simp [depth, h]

end

theorem depth_eq_some {l : List α} {d e : Nat} : depth kind l d = some e ↔
    (∀ p, p <+: l → closes kind p ≤ d + opens kind p) ∧
      e + closes kind l = d + opens kind l := by
  induction l generalizing d with
  | nil =>
    simp only [depth, Option.some_inj, List.prefix_nil, forall_eq]
    simp [opens, closes, eq_comm]
  | cons a l ih =>
    rw [forall_prefix_cons]
    simp only [opens_cons, closes_cons]
    rcases hk : kind a with _ | _ | _
    · rw [depth_opening hk, ih]
      simp only [reduceCtorEq, if_true, if_false]
      constructor
      · rintro ⟨hp, hl⟩
        exact ⟨⟨Nat.zero_le _, fun p hpl => by have := hp p hpl; omega⟩, by omega⟩
      · rintro ⟨⟨-, hp⟩, hl⟩
        exact ⟨fun p hpl => by have := hp p hpl; omega, by omega⟩
    · cases d with
      | zero =>
        rw [depth_closing_zero hk]
        refine ⟨fun h => (nomatch h), ?_⟩
        rintro ⟨⟨-, hp⟩, -⟩
        have := hp [] List.nil_prefix
        simp [opens, closes] at this
      | succ d =>
        rw [depth_closing hk, ih]
        simp only [reduceCtorEq, if_true, if_false]
        constructor
        · rintro ⟨hp, hl⟩
          exact ⟨⟨Nat.zero_le _, fun p hpl => by have := hp p hpl; omega⟩, by omega⟩
        · rintro ⟨⟨-, hp⟩, hl⟩
          exact ⟨fun p hpl => by have := hp p hpl; omega, by omega⟩
    · rw [depth_neutral hk, ih]
      simp only [reduceCtorEq, if_false]
      constructor
      · rintro ⟨hp, hl⟩
        exact ⟨⟨Nat.zero_le _, fun p hpl => by have := hp p hpl; omega⟩, by omega⟩
      · rintro ⟨⟨-, hp⟩, hl⟩
        exact ⟨fun p hpl => by have := hp p hpl; omega, by omega⟩

theorem balanced_iff_depth {l : List α} : Balanced kind l ↔ depth kind l 0 = some 0 := by
  rw [depth_eq_some]
  simp [Balanced]

/-! ## Structure -/

theorem depth_append (l l' : List α) (d : Nat) :
    depth kind (l ++ l') d = (depth kind l d).bind (depth kind l') := by
  induction l generalizing d with
  | nil => rfl
  | cons a l ih =>
    rw [List.cons_append]
    rcases hk : kind a with _ | _ | _
    · rw [depth_opening hk, depth_opening hk, ih]
    · cases d with
      | zero => rw [depth_closing_zero hk, depth_closing_zero hk, Option.bind_none]
      | succ d => rw [depth_closing hk, depth_closing hk, ih]
    · rw [depth_neutral hk, depth_neutral hk, ih]

theorem Forest.depth_flatten (f : Forest kind) (d : Nat) : depth kind f.flatten d = some d := by
  induction f generalizing d with
  | nil => rfl
  | leaf a ha rest ih =>
    rw [flatten, depth_neutral ha, ih]
  | node a ha inner b hb rest ihinner ihrest =>
    rw [flatten, depth_opening ha, depth_append, ihinner, Option.bind_some,
      depth_closing hb, ihrest]

/-- The items that close the `d` brackets which are open before the list, with what follows each. -/
theorem exists_forest_of_depth {l : List α} {d : Nat} (h : depth kind l d = some 0) :
    ∃ (f : Forest kind) (closing : List (α × Forest kind)),
      l = f.flatten ++ closing.flatMap (fun c => c.1 :: c.2.flatten) ∧ closing.length = d ∧
      ∀ c ∈ closing, kind c.1 = .closing := by
  induction l generalizing d with
  | nil =>
    obtain rfl : d = 0 := Option.some_inj.mp h
    exact ⟨.nil, [], rfl, rfl, fun _ hc => (nomatch hc)⟩
  | cons a l ih =>
    rcases hk : kind a with _ | _ | _
    · rw [depth_opening hk] at h
      obtain ⟨f, closing, hl, hlen, hclosing⟩ := ih h
      cases closing with
      | nil => cases hlen
      | cons c closing =>
        refine ⟨.node a hk f c.1 (hclosing c List.mem_cons_self) c.2, closing, ?_,
          Nat.succ.inj hlen, fun c' hc' => hclosing c' (List.mem_cons_of_mem _ hc')⟩
        rw [hl]
        simp [Forest.flatten]
    · cases d with
      | zero =>
        rw [depth_closing_zero hk] at h
        cases h
      | succ d =>
        rw [depth_closing hk] at h
        obtain ⟨f, closing, hl, hlen, hclosing⟩ := ih h
        refine ⟨.nil, (a, f) :: closing, ?_, by simp [hlen], ?_⟩
        · rw [hl]
          simp [Forest.flatten]
        · intro c hc
          rcases List.mem_cons.mp hc with rfl | hc
          · exact hk
          · exact hclosing c hc
    · rw [depth_neutral hk] at h
      obtain ⟨f, closing, hl, hlen, hclosing⟩ := ih h
      refine ⟨.leaf a hk f, closing, ?_, hlen, hclosing⟩
      rw [hl]
      simp [Forest.flatten]

/-- A list is balanced just if it has such a structure. -/
theorem balanced_iff_exists_forest {l : List α} :
    Balanced kind l ↔ ∃ f : Forest kind, f.flatten = l := by
  rw [balanced_iff_depth]
  constructor
  · intro h
    obtain ⟨f, closing, hl, hlen, -⟩ := exists_forest_of_depth h
    rw [List.length_eq_zero_iff.mp hlen] at hl
    exact ⟨f, by simpa using hl.symm⟩
  · rintro ⟨f, rfl⟩
    exact f.depth_flatten 0

end Bracket

end Lib
