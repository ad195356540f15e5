import Mathlib.Data.List.AList

/-!
# Hash maps

A hash map is an association list without repeated keys; what its iterators yield is some
permutation of it, chosen by a `HashOrder` that nothing here looks into. The lemmas give the
content of a map that was filled or changed by a loop over the entries of another one.
-/

namespace Lib

/-- The order in which iterators over hash maps and hash sets yield their items. -/
class HashOrder where
  /-- The items in iteration order. -/
  iter : ∀ {α : Type}, List α → List α
  /-- Every item is yielded exactly once. -/
  iter_perm : ∀ {α : Type} (l : List α), (iter l).Perm l

/-- The order of the list that represents the map. -/
@[reducible] def HashOrder.asListed : HashOrder := ⟨fun l => l, fun l => .refl l⟩

/-- A hash map from `α` to `β`. -/
abbrev HashMap (α β : Type) := AList fun _ : α => β

namespace HashMap

variable {α β γ : Type} [DecidableEq α]

/-- The entries of the map in iteration order. -/
def drain [HashOrder] (m : HashMap α β) : List (Sigma fun _ : α => β) := HashOrder.iter m.entries

/-- `m.entry(k).or_insert(v)`: an entry that is there already stays. -/
def orInsert (m : HashMap α β) (k : α) (v : β) : HashMap α β :=
  if k ∈ m then m else m.insert k v

theorem lookup_insert_eq (m : HashMap α β) (a k : α) (v : β) :
    (AList.insert k v m).lookup a = if a = k then some v else m.lookup a := by
  split
  · subst a; exact AList.lookup_insert m
  · exact AList.lookup_insert_ne ‹_›

theorem lookup_erase_eq (m : HashMap α β) (a k : α) :
    (AList.erase k m).lookup a = if a = k then none else m.lookup a := by
  split
  · subst a; exact AList.lookup_erase k m
  · exact AList.lookup_erase_ne ‹_›

theorem lookup_orInsert (m : HashMap α β) (a k : α) (v : β) :
    (m.orInsert k v).lookup a = if a = k then some ((m.lookup k).getD v) else m.lookup a := by
  unfold orInsert
  split
  · rename_i hk
    split
    · subst a
      obtain ⟨b, hb⟩ := Option.isSome_iff_exists.mp (AList.lookup_isSome.mpr hk)
      simp [hb]
    · rfl
  · rename_i hk
    rw [lookup_insert_eq, AList.lookup_eq_none.mpr hk]
    rfl

omit [DecidableEq α] in
theorem drain_perm [HashOrder] (m : HashMap α β) : m.drain.Perm m.entries :=
  HashOrder.iter_perm _

omit [DecidableEq α] in
theorem nodupKeys_drain [HashOrder] (m : HashMap α β) : m.drain.NodupKeys :=
  (List.perm_nodupKeys m.drain_perm).mpr m.nodupKeys

theorem dlookup_drain [HashOrder] (m : HashMap α β) (a : α) :
    m.drain.dlookup a = m.lookup a :=
  List.perm_dlookup a m.nodupKeys_drain m.drain_perm

/-- A loop over entries with distinct keys, each step of which changes only the value at its own
    key: in the end each key holds what its own step made of it. -/
theorem lookup_foldl {step : HashMap α γ → (Sigma fun _ : α => β) → HashMap α γ}
    (upd : β → Option γ → Option γ)
    (hstep : ∀ m e a, (step m e).lookup a = if a = e.1 then upd e.2 (m.lookup a) else m.lookup a)
    (l : List (Sigma fun _ : α => β)) (hl : l.NodupKeys) (m : HashMap α γ) (a : α) :
    (l.foldl step m).lookup a = match l.dlookup a with
      | some v => upd v (m.lookup a)
      | none => m.lookup a := by
  induction l generalizing m with
  | nil => rfl
  | cons e l ih =>
    obtain ⟨hnotin, hl'⟩ := List.nodupKeys_cons.mp hl
    rw [List.foldl_cons, ih hl', hstep]
    by_cases ha : a = e.1
    · subst ha
      have hnone : l.dlookup e.1 = none := List.dlookup_eq_none.mpr hnotin
      rw [hnone, List.dlookup_cons_eq]
      simp
    · rw [if_neg ha, List.dlookup_cons_ne l e (fun h => ha h)]

end HashMap

end Lib
