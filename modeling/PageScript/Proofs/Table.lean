import PageScript.Table

/-! What setting a name does to a table: it changes the value of that name and
of no other. -/
namespace PageScript.Table

variable {α : Type}

/-- Setting an entry gives it its value, whether there was one before or
not. -/
theorem lookup_setEntry_self (name : String) (value : α) (entries : List (String × α)) :
    (setEntry name value entries).lookup name = some value := by
  induction entries with
  | nil => simp [setEntry]
  | cons entry rest ih =>
      obtain ⟨n, v⟩ := entry
      by_cases hn : n = name
      · simp [setEntry, hn]
      · have hne : (name == n) = false := by simpa using fun h => hn h.symm
        simp [setEntry, hn, List.lookup_cons, hne, ih]

/-- Setting an entry leaves every other one alone. -/
theorem lookup_setEntry_of_ne {name other : String} (hne : other ≠ name) (value : α)
    (entries : List (String × α)) :
    (setEntry name value entries).lookup other = entries.lookup other := by
  induction entries with
  | nil => simp [setEntry, hne]
  | cons entry rest ih =>
      obtain ⟨n, v⟩ := entry
      by_cases hn : n = name
      · have hne : (other == n) = false := by simpa [hn] using hne
        simp [setEntry, hn, List.lookup_cons, hn ▸ hne]
      · simp only [setEntry, if_neg hn, List.lookup_cons, ih]

/-- A new name is added behind all others. -/
theorem setEntry_of_notMem {name : String} {entries : List (String × α)}
    (h : name ∉ entries.map Prod.fst) (value : α) :
    setEntry name value entries = entries ++ [(name, value)] := by
  induction entries with
  | nil => rfl
  | cons entry rest ih =>
      obtain ⟨n, v⟩ := entry
      rw [List.map_cons, List.mem_cons, not_or] at h
      rw [setEntry, if_neg (Ne.symm h.1), ih h.2, List.cons_append]

/-- Of two settings of one name the last one counts. -/
theorem setEntry_setEntry (name : String) (first last : α) (entries : List (String × α)) :
    setEntry name last (setEntry name first entries) = setEntry name last entries := by
  induction entries with
  | nil => simp [setEntry]
  | cons entry rest ih =>
      obtain ⟨n, v⟩ := entry
      by_cases hn : n = name
      · simp [setEntry, hn]
      · simp [setEntry, hn, ih]

@[simp] theorem get?_set_self (t : Table α) (name : String) (value : α) :
    (t.set name value).get? name = some value :=
  lookup_setEntry_self name value t.entries

theorem get?_set_of_ne (t : Table α) {name other : String} (hne : other ≠ name) (value : α) :
    (t.set name value).get? other = t.get? other :=
  lookup_setEntry_of_ne hne value t.entries

theorem set_set (t : Table α) (name : String) (first last : α) :
    (t.set name first).set name last = t.set name last :=
  congrArg Table.mk (setEntry_setEntry name first last t.entries)

/-- Setting one name any number of times leaves all other names alone. -/
theorem get?_foldl_set_of_ne {name other : String} (hne : other ≠ name) (values : List α)
    (t : Table α) : (values.foldl (fun table v => table.set name v) t).get? other =
    t.get? other := by
  induction values generalizing t with
  | nil => rfl
  | cons v rest ih => rw [List.foldl_cons, ih, get?_set_of_ne t hne]

/-- Of the entries that are set, the last one of a name counts. -/
theorem get?_update (t : Table α) (entries : List (String × α)) (name : String) :
    (t.update ⟨entries⟩).get? name = (entries.reverse.lookup name).or (t.get? name) := by
  induction entries generalizing t with
  | nil => rfl
  | cons entry rest ih =>
      obtain ⟨key, value⟩ := entry
      have hSet : (t.set key value).get? name = ([(key, value)].lookup name).or (t.get? name) := by
        by_cases hSame : name = key
        · rw [hSame, get?_set_self, List.lookup_cons_self]
          rfl
        · have hOther : (name == key) = false := by simpa using hSame
          rw [get?_set_of_ne t hSame, List.lookup_cons, hOther]
          rfl
      have hRest := ih (t.set key value)
      rw [List.reverse_cons, List.lookup_append, Option.or_assoc, ← hSet]
      exact hRest

/-- Setting an entry keeps the names in order. A new name comes last. -/
theorem map_fst_setEntry (name : String) (value : α) (entries : List (String × α)) :
    (setEntry name value entries).map Prod.fst =
      if name ∈ entries.map Prod.fst then entries.map Prod.fst else entries.map Prod.fst ++
        [name] := by
  induction entries with
  | nil => simp [setEntry]
  | cons entry rest ih =>
      obtain ⟨n, v⟩ := entry
      by_cases hn : n = name
      · simp [setEntry, hn]
      · have hne : name ≠ n := Ne.symm hn
        by_cases hRest : name ∈ rest.map Prod.fst
        · rw [setEntry, if_neg hn, List.map_cons, ih, if_pos hRest, List.map_cons,
            if_pos (.tail _ hRest)]
        · rw [setEntry, if_neg hn, List.map_cons, ih, if_neg hRest, List.map_cons,
            if_neg (by simp [hne, hRest]), List.cons_append]

/-- A table that is built by setting names has each of them once. -/
theorem nodup_names_update {t : Table α} (h : t.names.Nodup) (entries : List (String × α)) :
    (t.update ⟨entries⟩).names.Nodup := by
  induction entries generalizing t with
  | nil => exact h
  | cons entry rest ih =>
      refine ih (t := t.set entry.1 entry.2) ?_
      rw [names, set, map_fst_setEntry]
      split
      · exact h
      · next hNew =>
          refine List.nodup_append.mpr ⟨h, by simp, ?_⟩
          intro name hOld other hOther
          rw [List.mem_singleton.mp hOther]
          exact fun hSame => hNew (hSame ▸ hOld)

/-- Where no name occurs twice, the order of the entries does not matter for
what is found. -/
theorem lookup_reverse_of_nodup {entries : List (String × α)} (h : (entries.map Prod.fst).Nodup)
    (name : String) :
    entries.reverse.lookup name = entries.lookup name := by
  induction entries with
  | nil => rfl
  | cons entry rest ih =>
      obtain ⟨n, v⟩ := entry
      obtain ⟨hNew, hRest⟩ := List.nodup_cons.mp h
      rw [List.reverse_cons, List.lookup_append, ih hRest, List.lookup_cons]
      cases hSame : name == n with
      | true =>
          have hNone : rest.lookup name = none := by
            rw [List.lookup_eq_none_iff]
            intro entry hEntry
            rw [eq_of_beq hSame, bne_iff_ne]
            exact fun hn => hNew (List.mem_map.mpr ⟨entry, hEntry, hn.symm⟩)
          simp [hNone, List.lookup_cons, hSame]
      | false => simp [List.lookup_cons, hSame]

theorem get?_ofEntries (entries : List (String × α)) (name : String) :
    (ofEntries entries).get? name = entries.reverse.lookup name :=
  (get?_update empty entries name).trans (Option.or_none)

/-- Setting what a list of entries has come to is setting the entries. -/
theorem get?_update_ofEntries (t : Table α) (entries : List (String × α)) (name : String) :
    (t.update (ofEntries entries)).get? name = (entries.reverse.lookup name).or (t.get? name) := by
  have hOnce : (ofEntries entries).names.Nodup :=
    nodup_names_update (t := empty) List.nodup_nil entries
  rw [get?_update, lookup_reverse_of_nodup hOnce, ← get?_ofEntries]
  rfl

end PageScript.Table
