import Mathlib.Data.List.Sigma

/-!
# Writes under keys

Writes under different keys commute. So of a list of writes only the order of those under one key
matters: two lists that agree on every key have the same effect.
-/

namespace Lib

variable {ω κ σ : Type} [DecidableEq κ] {key : ω → κ} {act : σ → ω → σ}

/-- Writes under different keys commute. -/
def KeysCommute (key : ω → κ) (act : σ → ω → σ) : Prop :=
  ∀ x u v, key u ≠ key v → act (act x u) v = act (act x v) u

/-- The writes under one key. -/
def underKey (key : ω → κ) (k : κ) (l : List ω) : List ω := l.filter fun w => key w = k

omit [DecidableEq κ] in
/-- A write passes others under different keys. -/
theorem KeysCommute.foldl_pass (h : KeysCommute key act) {u : ω} {l : List ω}
    (hl : ∀ v ∈ l, key v ≠ key u) (x : σ) : act (l.foldl act x) u = l.foldl act (act x u) := by
  induction l generalizing x with
  | nil => rfl
  | cons v l ih =>
    rw [List.foldl_cons, List.foldl_cons, ih fun v' hv' => hl v' (List.mem_cons_of_mem v hv')]
    rw [h x v u (hl v List.mem_cons_self)]

/-- Where the first write under a key is. -/
theorem split_underKey {l l' : List ω} {u : ω} (h : underKey key (key u) l = u :: l') :
    ∃ before after, l = before ++ u :: after ∧ ∀ v ∈ before, key v ≠ key u := by
  induction l with
  | nil => cases h
  | cons v l ih =>
    by_cases hv : key v = key u
    · rw [underKey, List.filter_cons_of_pos (by simpa using hv)] at h
      cases h
      exact ⟨[], l, rfl, fun _ h => (nomatch h)⟩
    · rw [underKey, List.filter_cons_of_neg (by simpa using hv)] at h
      obtain ⟨before, after, rfl, hbefore⟩ := ih h
      refine ⟨v :: before, after, rfl, ?_⟩
      intro v' hv'
      rcases List.mem_cons.mp hv' with rfl | hv'
      · exact hv
      · exact hbefore v' hv'

/-- Lists that agree on every key have the same effect. -/
theorem KeysCommute.foldl_eq (h : KeysCommute key act) {l l' : List ω}
    (hl : ∀ k, underKey key k l = underKey key k l') (x : σ) : l.foldl act x = l'.foldl act x := by
  induction l generalizing l' x with
  | nil =>
    cases l' with
    | nil => rfl
    | cons u l' =>
      have hu := hl (key u)
      rw [underKey, underKey, List.filter_cons_of_pos (by simp)] at hu
      cases hu
  | cons u l ih =>
    have hu := hl (key u)
    rw [underKey, List.filter_cons_of_pos (by simp)] at hu
    -- the same write comes first under its key in the other list, where it passes those before it
    obtain ⟨before, after, rfl, hbefore⟩ := split_underKey hu.symm
    rw [List.foldl_cons, List.foldl_append, List.foldl_cons, h.foldl_pass hbefore,
      ← List.foldl_append]
    refine ih ?_ _
    intro k
    have hk := hl k
    simp only [underKey, List.filter_append] at hk ⊢
    by_cases hkey : key u = k
    · subst hkey
      have hnone : before.filter (fun w => decide (key w = key u)) = [] :=
        List.filter_eq_nil_iff.mpr fun v hv => by simpa using hbefore v hv
      rw [List.filter_cons_of_pos (by simp), List.filter_cons_of_pos (by simp), hnone] at hk
      rw [hnone]
      exact (List.cons.inj hk).2
    · rw [List.filter_cons_of_neg (by simpa using hkey),
        List.filter_cons_of_neg (by simpa using hkey)] at hk
      exact hk

theorem underKey_append (k : κ) (l l' : List ω) :
    underKey key k (l ++ l') = underKey key k l ++ underKey key k l' :=
  List.filter_append ..

/-- No write is under the key. -/
theorem underKey_eq_nil {k : κ} {l : List ω} (h : ∀ w ∈ l, key w ≠ k) : underKey key k l = [] :=
  List.filter_eq_nil_iff.mpr fun w hw => by simpa using h w hw

/-- All writes are under the key. -/
theorem underKey_eq_self {k : κ} {l : List ω} (h : ∀ w ∈ l, key w = k) : underKey key k l = l :=
  List.filter_eq_self.mpr fun w hw => by simpa using h w hw

/-- Blocks of writes, one for each of the entries, of which only one has writes under the key. -/
theorem underKey_flatten {α β : Type} [DecidableEq α] {B : (Sigma fun _ : α => β) → List ω → Prop}
    {entries : List (Sigma fun _ : α => β)} {blocks : List (List ω)}
    (hblocks : List.Forall₂ B entries blocks)
    (hkeys : entries.NodupKeys) {k : κ} {a : α}
    (hother : ∀ e block, e ∈ entries → B e block → e.1 ≠ a → ∀ w ∈ block, key w ≠ k)
    {writes : β → List ω}
    (hown : ∀ e block, e ∈ entries → B e block → e.1 = a → underKey key k block = writes e.2) :
    underKey key k blocks.flatten = ((entries.dlookup a).map writes).getD [] := by
  induction hblocks with
  | nil => rfl
  | @cons e block entries blocks hblock hblocks ih =>
    obtain ⟨hnotin, hkeys'⟩ := List.nodupKeys_cons.mp hkeys
    have ih := ih hkeys' (fun e' block' he' => hother e' block' (List.mem_cons_of_mem e he'))
      fun e' block' he' => hown e' block' (List.mem_cons_of_mem e he')
    rw [List.flatten_cons, underKey_append, ih]
    by_cases ha : e.1 = a
    · subst ha
      have hnone : entries.dlookup e.1 = none := List.dlookup_eq_none.mpr hnotin
      rw [hown e block List.mem_cons_self hblock rfl, hnone, List.dlookup_cons_eq]
      exact List.append_nil _
    · rw [underKey_eq_nil (hother e block List.mem_cons_self hblock ha),
        List.dlookup_cons_ne entries e (fun h => ha h.symm)]
      rfl

end Lib
