/-
Tables as functions from names to entries.

`NameTable.get?` is the view: every operation has one equation for it, and the entries are exactly
the pairs that it finds.
-/
import RenderFold.Proofs.Tile
import RenderFold.NameTable

namespace RenderFold

variable {α β : Type}

theorem NamesAscend.names_nodup {entries : List (String × α)} (h : NamesAscend entries) :
    (entries.map (·.1)).Nodup := by
  rw [List.Nodup, List.pairwise_map]
  apply h.imp
  intro a b hlt heq
  rw [heq] at hlt
  exact namePrecedes_irrefl b.1 hlt

theorem NamesAscend.nodup {entries : List (String × α)} (h : NamesAscend entries) :
    entries.Nodup := by
  apply h.imp
  rintro a _ hlt rfl
  exact namePrecedes_irrefl a.1 hlt

theorem find?_eq_some_iff_mem {entries : List (String × α)} (h : NamesAscend entries)
    {e : String × α} {name : String} :
    entries.find? (fun e => e.1 = name) = some e ↔ e ∈ entries ∧ e.1 = name := by
  constructor
  · intro hfind
    exact ⟨List.mem_of_find?_eq_some hfind, by simpa using List.find?_some hfind⟩
  · rintro ⟨hmem, rfl⟩
    induction entries with
    | nil => simp at hmem
    | cons head rest ih =>
        obtain ⟨hhead, hrest⟩ := List.pairwise_cons.1 h
        rcases List.mem_cons.1 hmem with rfl | hmem
        · simp
        · have hne : head.1 ≠ e.1 := by
            intro heq
            have hlt := hhead e hmem
            rw [heq] at hlt
            exact namePrecedes_irrefl e.1 hlt
          simpa [hne] using ih hrest hmem

namespace NameTable

theorem get?_eq_some_iff {t : NameTable α} {name : String} {a : α} :
    t.get? name = some a ↔ (name, a) ∈ t.entries := by
  rw [get?, Option.map_eq_some_iff]
  constructor
  · rintro ⟨e, hfind, rfl⟩
    obtain ⟨hmem, rfl⟩ := (find?_eq_some_iff_mem t.ascending).1 hfind
    exact hmem
  · intro hmem
    exact ⟨(name, a), (find?_eq_some_iff_mem t.ascending).2 ⟨hmem, rfl⟩, rfl⟩

/-- Tables in which the same is found are equal. -/
theorem ext_get? {s t : NameTable α} (h : ∀ name, s.get? name = t.get? name) : s = t := by
  have hentries : s.entries = t.entries := by
    refine List.Perm.eq_of_pairwise
      (fun a b _ _ hab hba => absurd (hab.trans hba) (namePrecedes_irrefl a.1))
      s.ascending t.ascending
      ((List.perm_ext_iff_of_nodup s.ascending.nodup t.ascending.nodup).2 fun e => ?_)
    rw [← get?_eq_some_iff, ← get?_eq_some_iff, h]
  cases s
  cases t
  subst hentries
  rfl

@[simp] theorem get?_empty (name : String) : (empty : NameTable α).get? name = none := rfl

@[simp] theorem get?_mapEntries (f : String → α → β) (t : NameTable α) (name : String) :
    (t.mapEntries f).get? name = (t.get? name).map (f name) := by
  rw [get?, get?, mapEntries, List.find?_map]
  simp only [Function.comp_def, Option.map_map]
  cases hfind : t.entries.find? fun e => e.1 = name with
  | none => rfl
  | some e =>
      have hname : e.1 = name := by simpa using List.find?_some hfind
      simp [hname]

@[simp] theorem names_mapEntries (f : String → α → β) (t : NameTable α) :
    (t.mapEntries f).names = t.names := by
  simp [names, mapEntries]

theorem mapEntries_mapEntries {γ : Type} (f : String → α → β) (g : String → β → γ)
    (t : NameTable α) :
    (t.mapEntries f).mapEntries g = t.mapEntries fun name a => g name (f name a) := by
  apply ext_get?
  intro name
  simp [Function.comp_def]

theorem get?_update (t : NameTable α) (name : String) (f : α → α) (other : String) :
    (t.update name f).get? other
      = if other = name then (t.get? other).map f else t.get? other := by
  rw [update, get?_mapEntries]
  by_cases h : other = name
  · simp [h]
  · simp [h]

theorem find?_putEntry (name : String) (a : α) (entries : List (String × α)) (other : String) :
    (putEntry name a entries).find? (fun e => e.1 = other)
      = if other = name then some (name, a) else entries.find? fun e => e.1 = other := by
  induction entries with
  | nil =>
      by_cases h : other = name
      · simp [putEntry, h]
      · simp [putEntry, h, Ne.symm h]
  | cons head rest ih =>
      simp only [putEntry]
      by_cases hhead : head.1 = name
      · by_cases h : other = name
        · simp [hhead, h]
        · simp [hhead, h, Ne.symm h]
      · by_cases hlt : NamePrecedes name head.1
        · by_cases h : other = name
          · simp [hhead, hlt, h]
          · simp [hhead, hlt, h, Ne.symm h]
        · by_cases h : head.1 = other
          · subst h
            simp [hhead, hlt]
          · simp [hhead, hlt, h, ih]

theorem get?_put (t : NameTable α) (name : String) (a : α) (other : String) :
    (t.put name a).get? other = if other = name then some a else t.get? other := by
  rw [get?, put, find?_putEntry]
  split <;> rfl

/-- Of two entries under one name the later one stays. -/
theorem put_put (t : NameTable α) (name : String) (a b : α) :
    (t.put name a).put name b = t.put name b := by
  refine ext_get? fun other => ?_
  simp only [get?_put]
  split <;> rfl

/-- Asking for a name gives its entry, or the one that is made now, and leaves all other names
alone. -/
theorem getOrInsert_entry (t : NameTable α) (name : String) (make : Unit → α) :
    (t.getOrInsert name make).1 = (t.get? name).getD (make ()) := by
  rw [getOrInsert]
  cases t.get? name <;> rfl

theorem get?_getOrInsert (t : NameTable α) (name : String) (make : Unit → α) (other : String) :
    (t.getOrInsert name make).2.2.get? other
      = if other = name then some ((t.get? name).getD (make ())) else t.get? other := by
  rw [getOrInsert]
  cases h : t.get? name with
  | none => simp [get?_put]
  | some a =>
      by_cases hother : other = name
      · simp [hother, h]
      · simp [hother]

theorem any_entries_iff (t : NameTable α) (p : α → Bool) :
    (t.entries.any fun e => p e.2) = true ↔ ∃ name a, t.get? name = some a ∧ p a = true := by
  rw [List.any_eq_true]
  constructor
  · rintro ⟨e, hmem, hp⟩
    exact ⟨e.1, e.2, get?_eq_some_iff.2 hmem, hp⟩
  · rintro ⟨name, a, hget, hp⟩
    exact ⟨(name, a), get?_eq_some_iff.1 hget, hp⟩

theorem mem_filter_names {t : NameTable α} {p : α → Bool} {name : String} :
    name ∈ (t.entries.filter fun e => p e.2).map (·.1) ↔ (t.get? name).any p = true := by
  simp only [List.mem_map, List.mem_filter, Option.any_eq_true, get?_eq_some_iff]
  constructor
  · rintro ⟨⟨_, a⟩, ⟨hmem, hp⟩, rfl⟩
    exact ⟨a, hmem, hp⟩
  · rintro ⟨a, hmem, hp⟩
    exact ⟨(name, a), ⟨hmem, hp⟩, rfl⟩

/-- The names whose entries satisfy a condition are listed in one order, so that tables which agree
on the condition list the same names. -/
theorem filter_names_congr {s : NameTable α} {t : NameTable β} {p : α → Bool} {q : β → Bool}
    (hagree : ∀ name, (s.get? name).any p = (t.get? name).any q) :
    (s.entries.filter fun e => p e.2).map (·.1) = (t.entries.filter fun e => q e.2).map (·.1) := by
  have hs : NamesAscend (s.entries.filter fun e => p e.2) := s.ascending.filter _
  have ht : NamesAscend (t.entries.filter fun e => q e.2) := t.ascending.filter _
  refine List.Perm.eq_of_pairwise
    (fun a b _ _ hab hba => absurd (hab.trans hba) (namePrecedes_irrefl a))
    (List.pairwise_map.2 hs) (List.pairwise_map.2 ht)
    ((List.perm_ext_iff_of_nodup hs.names_nodup ht.names_nodup).2 fun name => ?_)
  rw [mem_filter_names, mem_filter_names, hagree]

/-- Going through the entries of a table, where the step of a name changes what is seen of that
name and of no other. -/
theorem foldl_entries_view {β γ : Type} (step : β → String → α → β) (view : β → String → γ)
    (f : α → γ → γ) (hself : ∀ b name a, view (step b name a) name = f a (view b name))
    (hother : ∀ b name a other, other ≠ name → view (step b name a) other = view b other)
    (t : NameTable α) (b : β) (other : String) :
    view (t.entries.foldl (fun b e => step b e.1 e.2) b) other
      = match t.get? other with
        | some a => f a (view b other)
        | none => view b other := by
  obtain ⟨entries, hascend⟩ := t
  simp only [get?]
  induction entries generalizing b with
  | nil => rfl
  | cons head rest ih =>
      obtain ⟨hhead, hrest⟩ := List.pairwise_cons.1 hascend
      rw [List.foldl_cons, ih _ hrest]
      by_cases hname : head.1 = other
      · subst hname
        have hnone : rest.find? (fun e => e.1 = head.1) = none := by
          rw [List.find?_eq_none]
          intro e he heq
          have hlt := hhead e he
          rw [of_decide_eq_true heq] at hlt
          exact namePrecedes_irrefl head.1 hlt
        simp [hnone, hself]
      · simp [hname, hother _ _ _ _ (Ne.symm hname)]

end NameTable

end RenderFold
