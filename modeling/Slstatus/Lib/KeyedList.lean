import Mathlib.Data.List.Nodup
import Mathlib.Data.List.Perm.Basic

/-! Lists of records that are found by a key. As long as no key occurs twice, such a
list is a partial map, and deleting, inserting and changing a record are what they are
on maps. -/

namespace KeyedList

variable {α κ : Type*} (key : α → κ)

def Unique (l : List α) : Prop := (l.map key).Nodup

theorem Unique.cons {key : α → κ} {l : List α} {a : α} (hu : Unique key l)
    (h : key a ∉ l.map key) : Unique key (a :: l) :=
  List.nodup_cons.mpr ⟨h, hu⟩

variable [DecidableEq κ]

def lookup (l : List α) (k : κ) : Option α := l.find? (fun a => key a = k)

/-- Delete the first record with the key. -/
def erase (k : κ) (l : List α) : List α := l.eraseP (fun a => key a = k)

/-- Change the first record with the key. -/
def modify (k : κ) (f : α → α) : List α → List α
  | [] => []
  | a :: l => if key a = k then f a :: l else a :: modify k f l

variable {key} {l : List α} {a b : α} {k : κ}

theorem lookup_cons_self : lookup key (a :: l) (key a) = some a := by
  simp [lookup]

theorem lookup_cons_of_ne (h : key a ≠ k) : lookup key (a :: l) k = lookup key l k := by
  simp [lookup, h]

theorem lookup_eq_none_iff : lookup key l k = none ↔ k ∉ l.map key := by
  simp [lookup, List.find?_eq_none]

theorem mem_iff_lookup (hu : Unique key l) : a ∈ l ↔ lookup key l (key a) = some a := by
  constructor
  · intro ha
    induction l with
    | nil => cases ha
    | cons b l ih =>
      obtain ⟨hnot, hu⟩ := List.nodup_cons.mp hu
      rcases List.mem_cons.mp ha with rfl | htail
      · exact lookup_cons_self
      · have hne : key b ≠ key a := fun heq => hnot (heq ▸ List.mem_map_of_mem htail)
        rw [lookup_cons_of_ne hne]
        exact ih hu htail
  · intro h
    exact List.mem_of_find?_eq_some h

theorem map_key_erase_sublist : ((erase key k l).map key).Sublist (l.map key) :=
  List.eraseP_sublist.map key

theorem Unique.erase (hu : Unique key l) (k : κ) : Unique key (erase key k l) :=
  hu.sublist map_key_erase_sublist

theorem lookup_erase_self (hu : Unique key l) : lookup key (erase key k l) k = none := by
  induction l with
  | nil => rfl
  | cons b l ih =>
    obtain ⟨hnot, hu⟩ := List.nodup_cons.mp hu
    by_cases hb : key b = k
    · have herase : KeyedList.erase key k (b :: l) = l := by simp [KeyedList.erase, hb]
      rw [herase, lookup_eq_none_iff, ← hb]
      exact hnot
    · have herase : KeyedList.erase key k (b :: l) = b :: KeyedList.erase key k l := by
        simp [KeyedList.erase, hb]
      rw [herase, lookup_cons_of_ne hb]
      exact ih hu

theorem lookup_erase_of_ne {k' : κ} (hne : k' ≠ k) :
    lookup key (erase key k l) k' = lookup key l k' := by
  induction l with
  | nil => rfl
  | cons b l ih =>
    by_cases hb : key b = k
    · have herase : KeyedList.erase key k (b :: l) = l := by simp [KeyedList.erase, hb]
      rw [herase, lookup_cons_of_ne (hb ▸ hne.symm)]
    · have herase : KeyedList.erase key k (b :: l) = b :: KeyedList.erase key k l := by
        simp [KeyedList.erase, hb]
      rw [herase]
      by_cases hb' : key b = k'
      · rw [← hb', lookup_cons_self, lookup_cons_self]
      · rw [lookup_cons_of_ne hb', lookup_cons_of_ne hb', ih]

theorem erase_perm {l' : List α} (hu : Unique key l) (h : l.Perm (a :: l')) :
    (erase key (key a) l).Perm l' := by
  have hdistinct : l.Pairwise (fun b c => decide (key b = key a) = true →
      decide (key c = key a) = true → False) := by
    refine (List.pairwise_map.mp hu).imp ?_
    intro b c hne hb hc
    exact hne ((of_decide_eq_true hb).trans (of_decide_eq_true hc).symm)
  have herase : (a :: l').eraseP (fun b => decide (key b = key a)) = l' :=
    List.eraseP_cons_of_pos (decide_eq_true rfl)
  have hperm := h.eraseP (fun b => decide (key b = key a)) hdistinct
  rw [herase] at hperm
  exact hperm

theorem not_mem_erase (hu : Unique key l) : k ∉ (erase key k l).map key :=
  lookup_eq_none_iff.mp (lookup_erase_self hu)

theorem Unique.replace (hu : Unique key l) (a : α) :
    Unique key (a :: KeyedList.erase key (key a) l) :=
  (hu.erase (key a)).cons (not_mem_erase hu)

theorem lookup_erase (hu : Unique key l) :
    lookup key (erase key k l) = Function.update (lookup key l) k none := by
  funext k'
  by_cases hk : k' = k
  · rw [hk, lookup_erase_self hu, Function.update_self]
  · rw [lookup_erase_of_ne hk, Function.update_of_ne hk]

theorem lookup_replace (a : α) :
    lookup key (a :: erase key (key a) l) = Function.update (lookup key l) (key a) (some a) := by
  funext k'
  by_cases hk : k' = key a
  · rw [hk, lookup_cons_self, Function.update_self]
  · rw [lookup_cons_of_ne (Ne.symm hk), lookup_erase_of_ne hk, Function.update_of_ne hk]

section Modify

variable {f : α → α} (hf : ∀ a, key (f a) = key a)

include hf

theorem map_key_modify : (modify key k f l).map key = l.map key := by
  induction l with
  | nil => rfl
  | cons b l ih =>
    by_cases hb : key b = k
    · rw [modify, if_pos hb, List.map_cons, List.map_cons, hf]
    · rw [modify, if_neg hb, List.map_cons, List.map_cons, ih]

theorem Unique.modify (hu : Unique key l) : Unique key (modify key k f l) := by
  rw [Unique, map_key_modify hf]
  exact hu

theorem lookup_modify_self : lookup key (modify key k f l) k = (lookup key l k).map f := by
  induction l with
  | nil => rfl
  | cons b l ih =>
    by_cases hb : key b = k
    · subst hb
      have hhead : lookup key (f b :: l) (key (f b)) = some (f b) := lookup_cons_self
      rw [KeyedList.modify, if_pos rfl, lookup_cons_self, ← hf b, hhead, Option.map_some]
    · rw [KeyedList.modify, if_neg hb, lookup_cons_of_ne hb, lookup_cons_of_ne hb, ih]

theorem lookup_modify_of_ne {k' : κ} (hne : k' ≠ k) :
    lookup key (modify key k f l) k' = lookup key l k' := by
  induction l with
  | nil => rfl
  | cons b l ih =>
    by_cases hb : key b = k
    · have hfb : key (f b) ≠ k' := by
        rw [hf, hb]
        exact hne.symm
      rw [KeyedList.modify, if_pos hb, lookup_cons_of_ne hfb, lookup_cons_of_ne (hb ▸ hne.symm)]
    · rw [KeyedList.modify, if_neg hb]
      by_cases hb' : key b = k'
      · rw [← hb', lookup_cons_self, lookup_cons_self]
      · rw [lookup_cons_of_ne hb', lookup_cons_of_ne hb', ih]

theorem lookup_modify :
    lookup key (modify key k f l) =
      Function.update (lookup key l) k ((lookup key l k).map f) := by
  funext k'
  by_cases hk : k' = k
  · rw [hk, lookup_modify_self hf, Function.update_self]
  · rw [lookup_modify_of_ne hf hk, Function.update_of_ne hk]

end Modify

end KeyedList
