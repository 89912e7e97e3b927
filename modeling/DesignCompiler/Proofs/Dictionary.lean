import DesignCompiler.Dictionary

/-!
# Laws of dictionaries

An insertion changes what its own key leads to and nothing else, so after several insertions each
key leads to the last value inserted under it.
-/

namespace DesignCompiler.Dictionary

variable {κ α : Type} [BEq κ]

@[simp]
theorem get?_empty (key : κ) : (empty : Dictionary κ α).get? key = none := rfl

/-- Inserting what a key leads to changes nothing. -/
theorem insert_of_get? {dictionary : Dictionary κ α} {key : κ} {value : α}
    (hget : dictionary.get? key = some value) : dictionary.insert key value = dictionary := by
  obtain ⟨entries⟩ := dictionary
  unfold get? at hget
  unfold insert
  congr 1
  induction entries with
  | nil => cases hget
  | cons entry entries ih =>
    obtain ⟨known, old⟩ := entry
    rw [lookup] at hget
    rw [put]
    split at hget
    · rename_i hkey
      rw [if_pos hkey, Option.some.inj hget]
    · rename_i hkey
      rw [if_neg hkey, ih hget]

variable [LawfulBEq κ]

private theorem put_of_not_mem {key : κ} {value : α} {entries : List (κ × α)}
    (hkey : key ∉ entries.map Prod.fst) : put key value entries = entries ++ [(key, value)] := by
  induction entries with
  | nil => rfl
  | cons entry entries ih =>
    obtain ⟨known, old⟩ := entry
    rw [List.map_cons, List.mem_cons, not_or] at hkey
    rw [put, if_neg (by simpa using Ne.symm hkey.1), ih hkey.2, List.cons_append]

/-- A new key comes last. -/
theorem insert_of_not_mem {entries : List (κ × α)} {key : κ} {value : α}
    (hkey : key ∉ entries.map Prod.fst) :
    insert ⟨entries⟩ key value = ⟨entries ++ [(key, value)]⟩ :=
  congrArg Dictionary.mk (put_of_not_mem hkey)

theorem mem_entries_of_get? {dictionary : Dictionary κ α} {key : κ} {value : α}
    (hget : dictionary.get? key = some value) : (key, value) ∈ dictionary.entries := by
  obtain ⟨entries⟩ := dictionary
  unfold get? at hget
  induction entries with
  | nil => cases hget
  | cons entry entries ih =>
    obtain ⟨known, old⟩ := entry
    rw [lookup] at hget
    split at hget
    · rename_i hkey
      rw [beq_iff_eq] at hkey
      cases hget
      rw [hkey]
      exact List.mem_cons_self
    · exact List.mem_cons_of_mem _ (ih hget)

variable [DecidableEq κ]

private theorem lookup_put (key query : κ) (value : α) (entries : List (κ × α)) :
    lookup query (put key value entries) =
      if key = query then some value else lookup query entries := by
  induction entries with
  | nil => simp [put, lookup]
  | cons entry entries ih =>
    obtain ⟨known, old⟩ := entry
    rw [put]
    by_cases hkey : known = key
    · subst hkey
      by_cases hquery : known = query <;> simp [lookup, hquery]
    · rw [if_neg (by simpa using hkey), lookup, lookup, ih]
      by_cases hquery : known = query
      · subst hquery
        simp [Ne.symm hkey]
      · simp [hquery]

theorem get?_insert (dictionary : Dictionary κ α) (key query : κ) (value : α) :
    (dictionary.insert key value).get? query =
      if key = query then some value else dictionary.get? query :=
  lookup_put key query value dictionary.entries

/-- A new key takes nothing from the known ones. -/
theorem get?_insert_of_new {dictionary : Dictionary κ α} {key query : κ} {known : α} (value : α)
    (hnew : dictionary.get? key = none) (hknown : dictionary.get? query = some known) :
    (dictionary.insert key value).get? query = some known := by
  rw [get?_insert, if_neg]
  · exact hknown
  · rintro rfl
    rw [hnew] at hknown
    cases hknown

theorem contains_insert (dictionary : Dictionary κ α) (key query : κ) (value : α) :
    (dictionary.insert key value).contains query =
      (decide (key = query) || dictionary.contains query) := by
  rw [contains, get?_insert, contains]
  split <;> simp [*]

private theorem map_fst_put (key : κ) (value : α) (entries : List (κ × α)) :
    (put key value entries).map Prod.fst =
      if key ∈ entries.map Prod.fst then entries.map Prod.fst
      else entries.map Prod.fst ++ [key] := by
  induction entries with
  | nil => simp [put]
  | cons entry entries ih =>
    obtain ⟨known, old⟩ := entry
    rw [put]
    by_cases hkey : known = key
    · subst hkey
      simp
    · rw [if_neg (by simpa using hkey), List.map_cons, ih]
      simp only [List.map_cons, List.mem_cons, Ne.symm hkey, false_or]
      split <;> simp

theorem nodup_keys_insert {dictionary : Dictionary κ α} (hnodup : dictionary.keys.Nodup) (key : κ)
    (value : α) : (dictionary.insert key value).keys.Nodup := by
  unfold keys insert at *
  rw [map_fst_put]
  split
  · exact hnodup
  · rename_i hkey
    exact List.nodup_append.mpr
      ⟨hnodup, by simp, by simpa using fun _ h => ne_of_mem_of_not_mem h hkey⟩

/-- Where no key is repeated every entry counts. -/
theorem mem_entries_iff {dictionary : Dictionary κ α} (hnodup : dictionary.keys.Nodup) {key : κ}
    {value : α} : (key, value) ∈ dictionary.entries ↔ dictionary.get? key = some value := by
  obtain ⟨entries⟩ := dictionary
  unfold keys at hnodup
  unfold get?
  induction entries with
  | nil => simp [lookup]
  | cons entry entries ih =>
    obtain ⟨known, old⟩ := entry
    rw [List.map_cons, List.nodup_cons] at hnodup
    rw [lookup, List.mem_cons, ih hnodup.2]
    by_cases hkey : known = key
    · subst hkey
      -- The known key stands nowhere else.
      have hrest : lookup known entries ≠ some value := by
        intro hlookup
        rw [← ih hnodup.2] at hlookup
        exact hnodup.1 (List.mem_map.mpr ⟨_, hlookup, rfl⟩)
      simp [hrest, eq_comm]
    · simp [hkey, Ne.symm hkey]

end DesignCompiler.Dictionary
