import CfxEvm.Lib.Bracket

/-!
# Journals

What happens while calls are open within each other. Each call has a journal; when it is closed, its
journal is added to the one of its caller, or dropped. So in the end there is just what happened in
no call that was dropped, in the order in which it happened.
-/

namespace Lib

namespace Journal

open Lib.Bracket

variable {α : Type}

/-- A call is opened, something happens in it, or it is closed and kept or not. -/
inductive Mark (α : Type)
  | opened
  | event (a : α)
  | closed (is_kept : Bool)

def Mark.kind : Mark α → Bracket
  | .opened => .opening
  | .event _ => .neutral
  | .closed _ => .closing

/-- Adds the journal of a closed call to the one of its caller. -/
def merge (is_kept : Bool) (inner outer : List α) : List α :=
  if is_kept then outer ++ inner else outer

/-- What happened outside all calls that were dropped. -/
def survivors : Forest (Mark.kind (α := α)) → List α
  | .nil => []
  | .leaf m _ rest =>
    match m with
    | .event a => a :: survivors rest
    | _ => survivors rest
  | .node _ _ inner m _ rest =>
    match m with
    | .closed true => survivors inner ++ survivors rest
    | _ => survivors rest

/-- The journals of the open calls, the last one at the head, and at the end the one that is outside
    all of them. -/
inductive Kept : List (Mark α) → List (List α) → Prop
  | start : Kept [] [[]]
  | opened {l : List (Mark α)} {js : List (List α)} (h : Kept l js) :
    Kept (l ++ [.opened]) ([] :: js)
  | event {l : List (Mark α)} {j : List α} {js : List (List α)} (a : α) (h : Kept l (j :: js)) :
    Kept (l ++ [.event a]) ((j ++ [a]) :: js)
  | closed {l : List (Mark α)} {inner outer : List α} {js : List (List α)} (is_kept : Bool)
      (h : Kept l (inner :: outer :: js)) :
    Kept (l ++ [.closed is_kept]) (merge is_kept inner outer :: js)

theorem Kept.events {l : List (Mark α)} {j : List α} {js : List (List α)} (h : Kept l (j :: js))
    (events : List α) : Kept (l ++ events.map .event) ((j ++ events) :: js) := by
  induction events generalizing l j with
  | nil =>
    rw [List.map_nil, List.append_nil, List.append_nil]
    exact h
  | cons a events ih =>
    have hrest := ih (h.event a)
    rw [List.append_assoc, List.append_assoc] at hrest
    exact hrest

/-! ## Journals of a forest -/

/-- One mark later. -/
def record : List (List α) → Mark α → List (List α)
  | js, .opened => [] :: js
  | j :: js, .event a => (j ++ [a]) :: js
  | inner :: outer :: js, .closed is_kept => merge is_kept inner outer :: js
  | js, _ => js

theorem Kept.foldl_record {l : List (Mark α)} {js : List (List α)} (h : Kept l js) :
    l.foldl record [[]] = js := by
  induction h with
  | start => rfl
  | opened _ ih => rw [List.foldl_append, ih]; rfl
  | event a _ ih => rw [List.foldl_append, ih]; rfl
  | closed is_kept _ ih => rw [List.foldl_append, ih]; rfl

theorem Kept.depth {l : List (Mark α)} {js : List (List α)} (h : Kept l js) :
    ∃ d, js.length = d + 1 ∧ Bracket.depth Mark.kind l 0 = some d := by
  induction h with
  | start => exact ⟨0, rfl, rfl⟩
  | opened _ ih =>
    obtain ⟨d, hlen, hd⟩ := ih
    refine ⟨d + 1, by rw [List.length_cons, hlen], ?_⟩
    rw [depth_append, hd]
    rfl
  | event a _ ih =>
    obtain ⟨d, hlen, hd⟩ := ih
    refine ⟨d, hlen, ?_⟩
    rw [depth_append, hd]
    cases d <;> rfl
  | closed is_kept _ ih =>
    obtain ⟨d, hlen, hd⟩ := ih
    cases d with
    | zero => simp at hlen
    | succ d =>
      refine ⟨d, by simpa using hlen, ?_⟩
      rw [depth_append, hd]
      rfl

/-- A forest adds what survives to the last journal. -/
theorem foldl_flatten (f : Forest (Mark.kind (α := α))) (j : List α) (js : List (List α)) :
    f.flatten.foldl record (j :: js) = (j ++ survivors f) :: js := by
  induction f generalizing j js with
  | nil => simp [Forest.flatten, survivors]
  | leaf m hm rest ih =>
    cases m with
    | event a =>
      have hrest := ih (j ++ [a]) js
      rw [List.append_assoc] at hrest
      exact hrest
    | opened => cases hm
    | closed is_kept => cases hm
  | node m hm inner m' hm' rest ihinner ihrest =>
    cases m with
    | event a => cases hm
    | closed is_kept => cases hm
    | opened =>
      cases m' with
      | event a => cases hm'
      | opened => cases hm'
      | closed is_kept =>
        have hinner := ihinner [] (j :: js)
        have hrest := ihrest (merge is_kept (survivors inner) j) js
        rw [Forest.flatten, List.foldl_cons, List.foldl_append]
        show List.foldl record (List.foldl record ([] :: j :: js) inner.flatten) _ = _
        rw [hinner, List.foldl_cons]
        refine hrest.trans ?_
        cases is_kept with
        | true => simp [merge, survivors, List.append_assoc]
        | false => simp [merge, survivors]

/-- When all calls are closed, the journal lists what survives. -/
theorem Kept.forest {l : List (Mark α)} {j : List α} (h : Kept l [j]) :
    ∃ f : Forest (Mark.kind (α := α)), f.flatten = l ∧ survivors f = j := by
  obtain ⟨d, hlen, hdepth⟩ := h.depth
  obtain rfl : d = 0 := by simpa using hlen.symm
  obtain ⟨f, rfl⟩ := balanced_iff_exists_forest.mp (balanced_iff_depth.mpr hdepth)
  have hrecord := h.foldl_record
  rw [foldl_flatten, List.nil_append] at hrecord
  exact ⟨f, rfl, (List.cons.inj hrecord).1⟩

end Journal

end Lib
