/-!
# Registries

Values under keys.  A key has one value at a time, the last one put there; what is put under one key leaves the
other keys alone.
-/
namespace Stagecraft

structure Registry (κ α : Type) where
  entries : List (κ × α) := []

namespace Registry

variable {κ α : Type} [DecidableEq κ]

def get? (r : Registry κ α) (key : κ) : Option α := (r.entries.find? fun e => e.1 = key).map Prod.snd

def erase (r : Registry κ α) (key : κ) : Registry κ α := ⟨r.entries.filter fun e => e.1 ≠ key⟩

/-- Puts a value under a key, in place of the one that was there. -/
def put (r : Registry κ α) (key : κ) (a : α) : Registry κ α := ⟨(r.erase key).entries ++ [(key, a)]⟩

/-- The values, in the order in which they were put there. -/
def values (r : Registry κ α) : List α := r.entries.map Prod.snd

theorem get?_erase_self (r : Registry κ α) (key : κ) : (r.erase key).get? key = none := by
  simp [get?, erase, List.find?_eq_none]

theorem get?_erase_ne (r : Registry κ α) {key other : κ} (h : other ≠ key) :
    (r.erase key).get? other = r.get? other := by
  unfold get? erase
  rw [List.find?_filter]
  congr 2
  funext e
  by_cases he : e.1 = other <;> simp [he, h]

theorem get?_put_self (r : Registry κ α) (key : κ) (a : α) : (r.put key a).get? key = some a := by
  have h : (r.erase key).entries.find? (fun e => e.1 = key) = none := by
    simp [erase, List.find?_eq_none]
  simp [get?, put, List.find?_append, h]

theorem get?_put_ne (r : Registry κ α) {key other : κ} (h : other ≠ key) (a : α) :
    (r.put key a).get? other = r.get? other := by
  rw [← get?_erase_ne r h]
  simp [get?, put, List.find?_append, h.symm]

theorem mem_values_of_get? {r : Registry κ α} {key : κ} {a : α} (h : r.get? key = some a) : a ∈ r.values := by
  obtain ⟨e, he, rfl⟩ := Option.map_eq_some_iff.1 h
  exact List.mem_map_of_mem (List.mem_of_find?_eq_some he)

theorem mem_values_of_mem_erase {r : Registry κ α} {key : κ} {a : α} (h : a ∈ (r.erase key).values) : a ∈ r.values := by
  obtain ⟨e, he, rfl⟩ := List.mem_map.1 h
  exact List.mem_map_of_mem (List.mem_filter.1 he).1

/-- What is taken out of a registry is no longer in it. -/
theorem countP_values_erase (p : α → Bool) (r : Registry κ α) (key : κ) :
    (r.erase key).values.countP p + (r.get? key).toList.countP p ≤ r.values.countP p := by
  obtain ⟨entries⟩ := r
  unfold values erase get?
  simp only
  induction entries with
  | nil => exact Nat.le_refl _
  | cons e es ih =>
    by_cases he : e.1 = key
    · have hle : ((es.filter fun e => e.1 ≠ key).map Prod.snd).countP p ≤ (es.map Prod.snd).countP p :=
        (List.filter_sublist.map _).countP_le
      simp only [he, ne_eq, not_true_eq_false, decide_false, Bool.false_eq_true, not_false_eq_true,
        List.filter_cons_of_neg, decide_true, List.find?_cons_of_pos, Option.map_some, Option.toList_some,
        List.countP_cons, List.countP_nil, List.map_cons]
      simp only [ne_eq] at hle
      omega
    · simp only [he, ne_eq, not_false_eq_true, decide_true, List.filter_cons_of_pos, decide_false, Bool.false_eq_true,
        List.find?_cons_of_neg, List.map_cons, List.countP_cons] at ih ⊢
      omega

theorem values_put (r : Registry κ α) (key : κ) (a : α) : (r.put key a).values = (r.erase key).values ++ [a] := by
  rw [values, put, List.map_append]
  rfl

theorem mem_values_put {r : Registry κ α} {key : κ} {a b : α} (h : a ∈ (r.put key b).values) :
    a ∈ r.values ∨ a = b := by
  rw [values_put, List.mem_append] at h
  exact h.imp mem_values_of_mem_erase List.mem_singleton.1

/-! ## Keys -/

def keys (r : Registry κ α) : List κ := r.entries.map Prod.fst

theorem nodup_keys_erase {r : Registry κ α} (h : r.keys.Nodup) (key : κ) : (r.erase key).keys.Nodup :=
  List.Nodup.sublist (List.filter_sublist.map _) h

/-- A key has one value at a time. -/
theorem nodup_keys_put {r : Registry κ α} (h : r.keys.Nodup) (key : κ) (a : α) : (r.put key a).keys.Nodup := by
  have hnot : key ∉ (r.erase key).keys := by
    intro hmem
    obtain ⟨e, he, heq⟩ := List.mem_map.1 hmem
    simpa [heq] using (List.mem_filter.1 he).2
  have hkeys : (r.put key a).keys = (r.erase key).keys ++ [key] := by
    rw [keys, put, List.map_append]
    rfl
  rw [hkeys, List.nodup_append]
  refine ⟨nodup_keys_erase h key, List.nodup_cons.2 ⟨List.not_mem_nil, List.nodup_nil⟩, fun k hk k' hk' heq => ?_⟩
  rw [heq, List.mem_singleton.1 hk'] at hk
  exact hnot hk

/-- A value is still there when a key is taken out, unless it was the value of that key. -/
theorem mem_values_erase {r : Registry κ α} (hkeys : r.keys.Nodup) {a : α} (h : a ∈ r.values) (key : κ) :
    a ∈ (r.erase key).values ∨ r.get? key = some a := by
  obtain ⟨entries⟩ := r
  unfold values erase get? at *
  simp only at *
  induction entries with
  | nil => cases h
  | cons e es ih =>
    obtain ⟨hnot, hkeys⟩ := List.nodup_cons.1 hkeys
    rw [List.map_cons, List.mem_cons] at h
    by_cases he : e.1 = key
    · rcases h with rfl | h
      · exact .inr (by simp [he])
      · -- no other entry has the key
        obtain ⟨e', he', rfl⟩ := List.mem_map.1 h
        have hne : e'.1 ≠ key := fun heq => hnot (List.mem_map.2 ⟨e', he', heq.trans he.symm⟩)
        exact .inl (List.mem_map.2 ⟨e', List.mem_filter.2 ⟨List.mem_cons_of_mem _ he', by simpa using hne⟩, rfl⟩)
    · rcases h with rfl | h
      · exact .inl (List.mem_map.2 ⟨e, List.mem_filter.2 ⟨List.mem_cons_self, by simpa using he⟩, rfl⟩)
      · refine (ih hkeys h).imp (fun h => ?_) fun h => ?_
        · obtain ⟨e', he', rfl⟩ := List.mem_map.1 h
          obtain ⟨he', hne⟩ := List.mem_filter.1 he'
          exact List.mem_map.2 ⟨e', List.mem_filter.2 ⟨List.mem_cons_of_mem _ he', hne⟩, rfl⟩
        · rw [List.find?_cons_of_neg (by simpa using he)]
          exact h

end Registry
end Stagecraft
