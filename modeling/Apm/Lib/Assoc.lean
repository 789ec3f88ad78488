import Mathlib.Data.List.AList

/-!
First-insertion maps.

`emplace` keeps the value that is there; a map filled by `emplace` from a list
looks a key up as `List.find?` does.
-/

namespace Apm.Lib.Assoc

variable {κ α : Type*} [DecidableEq κ]

/-- Insert unless the key is there (`unordered_map::emplace`). -/
def emplace (m : AList fun _ : κ => α) (k : κ) (v : α) : AList fun _ : κ => α :=
  if k ∈ m then m else m.insert k v

theorem lookup_emplace (m : AList fun _ : κ => α) (k k' : κ) (v : α) :
    (emplace m k v).lookup k' = (m.lookup k').or (if k = k' then some v else none) := by
  unfold emplace
  by_cases same : k = k'
  · subst same
    by_cases present : k ∈ m
    · obtain ⟨w, hw⟩ := Option.isSome_iff_exists.mp (AList.lookup_isSome.mpr present)
      simp [present, hw]
    · rw [if_neg present, AList.lookup_insert, AList.lookup_eq_none.mpr present]
      simp
  · rw [if_neg same, Option.or_none]
    split
    · rfl
    · exact AList.lookup_insert_ne (Ne.symm same)

/-- A map that a pass over a list fills by `emplace` finds the first fitting element. -/
theorem lookup_foldl_emplace [BEq κ] [LawfulBEq κ] (keep : α → Bool) (key : α → κ) (l : List α)
    (m : AList fun _ : κ => α) (k : κ) :
    (l.foldl (fun m x => if keep x then emplace m (key x) x else m) m).lookup k =
      (m.lookup k).or (l.find? fun x => keep x && key x == k) := by
  induction l generalizing m with
  | nil => simp
  | cons x l ih =>
    rw [List.foldl_cons, ih, List.find?_cons]
    cases hx : keep x with
    | false => simp
    | true =>
      rw [if_pos rfl, lookup_emplace]
      by_cases hk : key x = k
      · simp [hk]
      · simp [hk, beq_eq_false_iff_ne.mpr hk]

/-- A map that takes over the entries of another one keeps its own. -/
theorem lookup_foldl_emplace_entries (l : List (Sigma fun _ : κ => α)) (m : AList fun _ : κ => α)
    (k : κ) :
    (l.foldl (fun m kv => emplace m kv.1 kv.2) m).lookup k = (m.lookup k).or (l.dlookup k) := by
  induction l generalizing m with
  | nil => simp
  | cons kv l ih =>
    obtain ⟨a, b⟩ := kv
    rw [List.foldl_cons, ih, lookup_emplace, Option.or_assoc]
    by_cases same : a = k
    · subst same
      rw [if_pos rfl, List.dlookup_cons_eq, Option.some_or]
    · rw [if_neg same, List.dlookup_cons_ne _ _ (Ne.symm same), Option.none_or]

/-- Inserting distinct keys one after the other. -/
theorem lookup_foldl_insert {l : List (Sigma fun _ : κ => α)} (nodup : l.NodupKeys)
    (m : AList fun _ : κ => α) (k : κ) :
    (l.foldl (fun m kv => m.insert kv.1 kv.2) m).lookup k = (l.dlookup k).or (m.lookup k) := by
  induction l generalizing m with
  | nil => rfl
  | cons kv l ih =>
    obtain ⟨a, b⟩ := kv
    obtain ⟨new, nodup⟩ := List.nodupKeys_cons.mp nodup
    rw [List.foldl_cons, ih nodup]
    by_cases same : k = a
    · subst same
      rw [List.dlookup_eq_none.mpr new, List.dlookup_cons_eq, AList.lookup_insert]
      rfl
    · rw [List.dlookup_cons_ne _ _ same, AList.lookup_insert_ne same]

/-- Inserting distinct new keys puts them in front, the last one first. -/
theorem entries_foldl_insert {l : List (Sigma fun _ : κ => α)} (nodup : l.NodupKeys)
    {m : AList fun _ : κ => α} (fresh : ∀ kv ∈ l, kv.1 ∉ m) :
    (l.foldl (fun m kv => m.insert kv.1 kv.2) m).entries = l.reverse ++ m.entries := by
  induction l generalizing m with
  | nil => rfl
  | cons kv l ih =>
    obtain ⟨first, others⟩ := List.forall_mem_cons.mp fresh
    obtain ⟨new, nodup⟩ := List.nodupKeys_cons.mp nodup
    have fresh' : ∀ kv' ∈ l, kv'.1 ∉ m.insert kv.1 kv.2 := by
      intro kv' mem there
      rcases (AList.mem_insert _).mp there with same | there
      · exact new (same ▸ List.mem_map_of_mem mem)
      · exact others kv' mem there
    rw [List.foldl_cons, ih nodup fresh', AList.entries_insert_of_notMem first, List.reverse_cons,
      List.append_assoc, List.singleton_append]

/-- Leaving out entries by their keys does not hide the other keys. -/
theorem dlookup_filter_key (keep : κ → Bool) {k : κ} (h : keep k)
    (l : List (Sigma fun _ : κ => α)) :
    (l.filter fun kv => keep kv.1).dlookup k = l.dlookup k := by
  induction l with
  | nil => rfl
  | cons kv l ih =>
    rw [List.filter_cons]
    by_cases same : k = kv.1
    · subst same
      rw [if_pos h, List.dlookup_cons_eq, List.dlookup_cons_eq]
    · rw [List.dlookup_cons_ne _ _ same, ← ih]
      split
      · exact List.dlookup_cons_ne _ _ same
      · rfl

/-! ### Slots

A record with texts for fields is written as a list of entries that leaves out the empty ones. -/

section Slots

variable {β : Type*}

/-- The entries of the slots that are not empty. -/
def slotEntries (slots : List (κ × List β)) : List (Sigma fun _ : κ => List β) :=
  slots.flatMap fun slot => if slot.2.isEmpty then [] else [⟨slot.1, slot.2⟩]

omit [DecidableEq κ] in
theorem mem_slotEntries {slots : List (κ × List β)} {kv : Sigma fun _ : κ => List β} :
    kv ∈ slotEntries slots ↔ (kv.1, kv.2) ∈ slots ∧ kv.2 ≠ [] := by
  obtain ⟨k, v⟩ := kv
  unfold slotEntries
  rw [List.mem_flatMap]
  constructor
  · rintro ⟨⟨k', v'⟩, inside, given⟩
    cases v' with
    | nil => cases given
    | cons b v' =>
      obtain ⟨rfl, same⟩ := Sigma.mk.inj (List.mem_singleton.mp given)
      obtain rfl := eq_of_heq same
      exact ⟨inside, List.cons_ne_nil _ _⟩
  · rintro ⟨inside, filled⟩
    refine ⟨(k, v), inside, ?_⟩
    rw [if_neg (by simpa using filled)]
    exact List.mem_singleton_self _

omit [DecidableEq κ] in
theorem slotEntries_keys_sublist (slots : List (κ × List β)) :
    (slotEntries slots).keys.Sublist (slots.map Prod.fst) := by
  induction slots with
  | nil => exact List.Sublist.slnil
  | cons slot slots ih =>
    unfold slotEntries List.keys at ih ⊢
    rw [List.flatMap_cons, List.map_append, List.map_cons]
    split
    · exact ih.cons _
    · exact ih.cons_cons _

omit [DecidableEq κ] in
theorem slotEntries_nodupKeys {slots : List (κ × List β)} (h : (slots.map Prod.fst).Nodup) :
    (slotEntries slots).NodupKeys := h.sublist (slotEntries_keys_sublist slots)

/-- A slot is looked up as it is; an empty one is not found. -/
theorem dlookup_slotEntries {slots : List (κ × List β)} (h : (slots.map Prod.fst).Nodup)
    {slot : κ × List β} (mem : slot ∈ slots) :
    ((slotEntries slots).dlookup slot.1).getD [] = slot.2 := by
  by_cases empty : slot.2 = []
  · have absent : (slotEntries slots).dlookup slot.1 = none := by
      rw [List.dlookup_eq_none]
      intro present
      obtain ⟨⟨k, v⟩, inside, same⟩ := List.mem_map.mp present
      obtain ⟨inside, filled⟩ := mem_slotEntries.mp inside
      have same : (k, v) = slot := List.inj_on_of_nodup_map h inside mem same
      have value : v = slot.2 := congrArg Prod.snd same
      exact filled (value.trans empty)
    rw [absent, empty]
    rfl
  · have present : (⟨slot.1, slot.2⟩ : Sigma fun _ : κ => List β) ∈ slotEntries slots :=
      mem_slotEntries.mpr ⟨mem, empty⟩
    rw [List.mem_dlookup (slotEntries_nodupKeys h) present]
    rfl

end Slots

end Apm.Lib.Assoc
