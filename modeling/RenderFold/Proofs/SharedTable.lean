/-
Tables of shared entries as tables of plain ones.

A handle is as good as the name it was handed out for: whatever sequence of requests, lookups,
listings and changes a table goes through, it holds what a table of plain entries holds when the
same changes are made by name.
-/
import Mathlib.Data.List.Dedup
import Mathlib.Data.List.Forall2
import RenderFold.SharedTable
import RenderFold.Proofs.NameTable

namespace RenderFold

namespace SharedTable

variable {α σ : Type}

/-! ### Handles and entries -/

@[simp] theorem get?_empty (name : String) : (empty : SharedTable α).get? name = none := by
  simp [get?, empty]

/-- A handle that was given leads to an entry. -/
theorem exists_read {t : SharedTable α} {name : String} {h : EntryHandle}
    (hget : t.get? name = some h) : ∃ a, t.read h = some a :=
  ⟨_, Array.getElem?_eq_getElem (t.allocated hget)⟩

@[simp] theorem get?_update (t : SharedTable α) (h : EntryHandle) (f : α → α) (name : String) :
    (t.update h f).get? name = t.get? name := rfl

theorem read_update (t : SharedTable α) (h : EntryHandle) (f : α → α) (k : EntryHandle) :
    (t.update h f).read k = if k = h then (t.read k).map f else t.read k := by
  rw [read, update, Array.getElem?_modify, read]
  by_cases hk : k = h
  · rw [if_pos hk, if_pos (by rw [hk])]
  · have hcell : h.cell ≠ k.cell := by
      intro heq
      apply hk
      cases h
      cases k
      exact congrArg EntryHandle.mk heq.symm
    rw [if_neg hk, if_neg hcell]

theorem eq_iff_of_get? {t : SharedTable α} {name other : String} {h k : EntryHandle}
    (hget : t.get? name = some h) (hother : t.get? other = some k) : k = h ↔ other = name := by
  constructor
  · rintro rfl
    exact t.separate hother hget
  · rintro rfl
    rw [hget] at hother
    exact (Option.some.inj hother).symm

/-- A change through the handle of a name changes what is read for that name and for no other. -/
theorem read_update_of_get? {t : SharedTable α} {name other : String} {h k : EntryHandle}
    (hget : t.get? name = some h) (hother : t.get? other = some k) (f : α → α) :
    (t.update h f).read k = if other = name then (t.read k).map f else t.read k := by
  rw [read_update]
  exact if_congr (eq_iff_of_get? hget hother) rfl rfl

theorem get?_add (t : SharedTable α) (name : String) (a : α) (other : String) :
    (t.add name a).get? other = if other = name then some t.nextHandle else t.get? other := by
  rw [get?, add, Std.HashMap.getElem?_insert, get?]
  by_cases hname : other = name
  · simp [hname]
  · simp [hname, Ne.symm hname]

theorem read_add_nextHandle (t : SharedTable α) (name : String) (a : α) :
    (t.add name a).read t.nextHandle = some a := by
  simp [read, add, nextHandle]

theorem read_add {t : SharedTable α} {other : String} {h : EntryHandle}
    (hget : t.get? other = some h) (name : String) (a : α) :
    (t.add name a).read h = t.read h := by
  have hcell : h.cell ≠ t.cells.size := Nat.ne_of_lt (t.allocated hget)
  rw [read, add, Array.getElem?_push, if_neg hcell, read]

theorem getOrInsert_of_get?_eq_some {t : SharedTable α} {name : String} {h : EntryHandle}
    (hget : t.get? name = some h) (make : StateM σ α) (w : σ) :
    t.getOrInsert name make w = ((h, t), w) := by
  rw [getOrInsert, hget]
  rfl

theorem getOrInsert_of_get?_eq_none {t : SharedTable α} {name : String}
    (hget : t.get? name = none) (make : StateM σ α) (w : σ) :
    t.getOrInsert name make w = ((t.nextHandle, t.add name (make w).1), (make w).2) := by
  rw [getOrInsert, hget]
  rfl

/-! ### Listings -/

theorem mem_entries {t : SharedTable α} {name : String} {h : EntryHandle} :
    (name, h) ∈ t.entries ↔ t.get? name = some h := by
  rw [entries, List.mem_mergeSort, Std.HashMap.mem_toList_iff_getElem?_eq_some, get?]

/-- The sorted snapshot lists its names in strictly ascending order. -/
theorem entries_ascend (t : SharedTable α) : NamesAscend t.entries := by
  have hsorted : t.entries.Pairwise fun a b => (!decide (NamePrecedes b.1 a.1)) = true := by
    apply List.pairwise_mergeSort
    · intro a b c hab hbc
      simp only [Bool.not_eq_true', decide_eq_false_iff_not] at hab hbc ⊢
      intro hca
      by_cases hname : b.1 = c.1
      · exact hab (hname ▸ hca)
      · exact hab ((namePrecedes_of_not (Ne.symm hname) hbc).trans hca)
    · intro a b
      simp only [Bool.or_eq_true, Bool.not_eq_true', decide_eq_false_iff_not]
      by_cases hba : NamePrecedes b.1 a.1
      · exact .inr fun hab => namePrecedes_irrefl _ (hab.trans hba)
      · exact .inl hba
  -- the names of a hash map are different, in whatever order they come
  have hdistinct : t.entries.Pairwise fun a b => a.1 ≠ b.1 := by
    have hmap : t.handles.toList.Pairwise fun a b => a.1 ≠ b.1 := by
      simpa using t.handles.distinct_keys_toList
    exact hmap.perm (List.mergeSort_perm _ _).symm fun hne => hne.symm
  apply (hsorted.and hdistinct).imp
  rintro a b ⟨hnot, hne⟩
  simp only [Bool.not_eq_true', decide_eq_false_iff_not] at hnot
  exact namePrecedes_of_not hne.symm hnot

theorem mem_names {t : SharedTable α} {name : String} :
    name ∈ t.names ↔ ∃ h, t.get? name = some h := by
  simp only [names, List.mem_map, Prod.exists, mem_entries]
  constructor
  · rintro ⟨_, h, hget, rfl⟩
    exact ⟨h, hget⟩
  · rintro ⟨h, hget⟩
    exact ⟨name, h, hget, rfl⟩

theorem length_names (t : SharedTable α) : t.names.length = t.size := by
  rw [names, List.length_map, entries, List.length_mergeSort, Std.HashMap.length_toList, size]

/-! ### The plain entries -/

/-- The table of plain entries that a table stands for. -/
def contents (t : SharedTable α) : NameTable α where
  entries := t.entries.filterMap fun e => (t.read e.2).map fun a => (e.1, a)
  ascending := by
    apply List.pairwise_filterMap.2
    apply t.entries_ascend.imp
    intro a b hlt x hx y hy
    rw [Option.map_eq_some_iff] at hx hy
    rcases hx with ⟨_, _, rfl⟩
    rcases hy with ⟨_, _, rfl⟩
    exact hlt

theorem get?_contents (t : SharedTable α) (name : String) :
    t.contents.get? name = (t.get? name).bind t.read := by
  ext a
  rw [NameTable.get?_eq_some_iff, Option.bind_eq_some_iff]
  simp only [contents, List.mem_filterMap, Option.map_eq_some_iff, Prod.mk.injEq, Prod.exists,
    mem_entries]
  constructor
  · rintro ⟨_, h, hget, _, hread, rfl, rfl⟩
    exact ⟨h, hget, hread⟩
  · rintro ⟨h, hget, hread⟩
    exact ⟨name, h, hget, a, hread, rfl, rfl⟩

theorem names_contents (t : SharedTable α) : t.contents.names = t.names := by
  have hname : ∀ e ∈ t.entries, ((t.read e.2).map fun a => (e.1, a)).map (·.1) = some e.1 := by
    intro e he
    rcases exists_read (mem_entries.1 he) with ⟨a, hread⟩
    simp [hread]
  calc t.contents.names
      = t.entries.filterMap fun e => ((t.read e.2).map fun a => (e.1, a)).map (·.1) := by
        rw [NameTable.names, contents, List.map_filterMap]
    _ = t.entries.filterMap fun e => some e.1 := List.filterMap_congr hname
    _ = t.names := congrFun List.filterMap_eq_map' t.entries

theorem contents_empty : (empty : SharedTable α).contents = NameTable.empty := by
  apply NameTable.ext_get?
  intro name
  simp [get?_contents]

/-- Changing an entry through a handle is changing it by the name of the handle. -/
theorem contents_update {t : SharedTable α} {name : String} {h : EntryHandle}
    (hget : t.get? name = some h) (f : α → α) :
    (t.update h f).contents = t.contents.update name f := by
  apply NameTable.ext_get?
  intro other
  simp only [NameTable.get?_update, get?_contents, get?_update]
  rcases hother : t.get? other with _ | k
  · simp
  · rw [Option.bind_some, Option.bind_some, read_update_of_get? hget hother]

theorem contents_add (t : SharedTable α) (name : String) (a : α) :
    (t.add name a).contents = t.contents.put name a := by
  apply NameTable.ext_get?
  intro other
  simp only [NameTable.get?_put, get?_contents, get?_add]
  by_cases hname : other = name
  · simp [hname, read_add_nextHandle]
  · simp only [hname, if_false]
    rcases hother : t.get? other with _ | k
    · rfl
    · exact read_add hother name a

end SharedTable

/-! ### Runs -/

/-- What the holder of a table can do. A maker may change a state of its own; a change is made
through one of the handles that were handed out before, by its position among them. -/
inductive TableCall (σ α : Type) where
  | request (name : String) (make : StateM σ α)
  | lookup (name : String)
  | update (i : Nat) (f : α → α)
  | names
  | entries

variable {α σ : Type}

def TableCall.requested : TableCall σ α → List String
  | .request name _ => [name]
  | _ => []

def requestedNames (calls : List (TableCall σ α)) : List String :=
  calls.flatMap TableCall.requested

/-- A table in use: the handles that were handed out, in order, and the state of the makers. -/
structure TableSession (σ α : Type) where
  table : SharedTable α
  held : List EntryHandle
  world : σ

namespace TableSession

def call (s : TableSession σ α) : TableCall σ α → TableSession σ α
  | .request name make =>
      let ((h, table), world) := s.table.getOrInsert name make s.world
      ⟨table, s.held ++ [h], world⟩
  | .lookup name => { s with held := s.held ++ (s.table.get? name).toList }
  | .update i f =>
      match s.held[i]? with
      | some h => { s with table := s.table.update h f }
      | none => s
  | .names => s
  | .entries => { s with held := s.held ++ s.table.entries.map (·.2) }

/-- The session after calls on a new table. -/
def run (w : σ) (calls : List (TableCall σ α)) : TableSession σ α :=
  calls.foldl call ⟨.empty, [], w⟩

end TableSession

/-- The same on plain entries: what is handed out is the name. -/
structure NamedSession (σ α : Type) where
  table : NameTable α
  held : List String
  world : σ

namespace NamedSession

def call (s : NamedSession σ α) : TableCall σ α → NamedSession σ α
  | .request name make =>
      match s.table.get? name with
      | some _ => { s with held := s.held ++ [name] }
      | none => ⟨s.table.put name (make s.world).1, s.held ++ [name], (make s.world).2⟩
  | .lookup name =>
      { s with held := s.held ++ if (s.table.get? name).isSome then [name] else [] }
  | .update i f =>
      match s.held[i]? with
      | some name => { s with table := s.table.update name f }
      | none => s
  | .names => s
  | .entries => { s with held := s.held ++ s.table.names }

def run (w : σ) (calls : List (TableCall σ α)) : NamedSession σ α :=
  calls.foldl call ⟨.empty, [], w⟩

end NamedSession

namespace TableSession

/-! ### One call -/

theorem call_request_of_get?_eq_some {s : TableSession σ α} {name : String} {h : EntryHandle}
    (hget : s.table.get? name = some h) (make : StateM σ α) :
    s.call (.request name make) = { s with held := s.held ++ [h] } := by
  rw [call, SharedTable.getOrInsert_of_get?_eq_some hget]

theorem call_request_of_get?_eq_none {s : TableSession σ α} {name : String}
    (hget : s.table.get? name = none) (make : StateM σ α) :
    s.call (.request name make) = ⟨s.table.add name (make s.world).1,
      s.held ++ [s.table.nextHandle], (make s.world).2⟩ := by
  rw [call, SharedTable.getOrInsert_of_get?_eq_none hget]

/-- No call takes a handle away or gives a name another one. -/
theorem get?_call {s : TableSession σ α} {name : String} {h : EntryHandle}
    (hget : s.table.get? name = some h) (c : TableCall σ α) :
    (s.call c).table.get? name = some h := by
  rcases c with ⟨other, make⟩ | other | ⟨i, f⟩ | _ | _
  case request =>
    rcases hother : s.table.get? other with _ | k
    · have hname : name ≠ other := by
        rintro rfl
        simp [hother] at hget
      rw [call_request_of_get?_eq_none hother, SharedTable.get?_add, if_neg hname]
      exact hget
    · rw [call_request_of_get?_eq_some hother]
      exact hget
  case update =>
    rcases hheld : s.held[i]? with _ | k
    · simpa only [call, hheld] using hget
    · simpa only [call, hheld, SharedTable.get?_update] using hget
  all_goals exact hget

/-- A call makes the entries that it asks for and no others. -/
theorem get?_call_eq_none_iff (s : TableSession σ α) (c : TableCall σ α) (name : String) :
    (s.call c).table.get? name = none ↔ s.table.get? name = none ∧ name ∉ c.requested := by
  rcases c with ⟨other, make⟩ | other | ⟨i, f⟩ | _ | _
  case request =>
    rcases hother : s.table.get? other with _ | k
    · rw [call_request_of_get?_eq_none hother, SharedTable.get?_add]
      by_cases hname : name = other
      · simp [hname, TableCall.requested]
      · simp [hname, TableCall.requested]
    · rw [call_request_of_get?_eq_some hother]
      simp only [TableCall.requested, List.mem_singleton]
      constructor
      · intro hnone
        refine ⟨hnone, ?_⟩
        rintro rfl
        simp [hother] at hnone
      · exact And.left
  case update =>
    rcases hheld : s.held[i]? with _ | k
    · simp [call, hheld, TableCall.requested]
    · simp [call, hheld, TableCall.requested]
  all_goals simp [call, TableCall.requested]

/-- A session shows what another has: the same entries, and for every name that was handed out its
handle. -/
structure Shows (s : TableSession σ α) (t : NamedSession σ α) : Prop where
  contents : s.table.contents = t.table
  held : List.Forall₂ (fun h name => s.table.get? name = some h) s.held t.held
  world : s.world = t.world

/-- Handles are shown after a call that leads to them as before. -/
theorem held_call {s : TableSession σ α} {held : List EntryHandle} {names : List String}
    (hheld : List.Forall₂ (fun h name => s.table.get? name = some h) held names)
    (c : TableCall σ α) :
    List.Forall₂ (fun h name => (s.call c).table.get? name = some h) held names :=
  hheld.imp fun _ _ hget => get?_call hget c

theorem Shows.isSome_get? {s : TableSession σ α} {t : NamedSession σ α} (h : s.Shows t)
    (name : String) : (t.table.get? name).isSome = (s.table.get? name).isSome := by
  rw [← h.contents, SharedTable.get?_contents]
  rcases hget : s.table.get? name with _ | k
  · rfl
  · rcases SharedTable.exists_read hget with ⟨a, hread⟩
    simp [hread]

theorem Shows.call {s : TableSession σ α} {t : NamedSession σ α} (h : s.Shows t)
    (c : TableCall σ α) : (s.call c).Shows (t.call c) := by
  have hkept := held_call h.held c
  rcases c with ⟨name, make⟩ | name | ⟨i, f⟩ | _ | _
  case request =>
    have hsome := h.isSome_get? name
    rcases hget : s.table.get? name with _ | k
    · have hnone : t.table.get? name = none := by simpa [hget] using hsome
      rw [call_request_of_get?_eq_none hget] at hkept ⊢
      simp only [NamedSession.call, hnone]
      refine ⟨?_, ?_, by rw [h.world]⟩
      · rw [SharedTable.contents_add, h.contents, h.world]
      · exact List.rel_append hkept (.cons (by simp [SharedTable.get?_add]) .nil)
    · rw [hget, Option.isSome_some, Option.isSome_iff_exists] at hsome
      rcases hsome with ⟨a, hsome⟩
      rw [call_request_of_get?_eq_some hget] at hkept ⊢
      simp only [NamedSession.call, hsome]
      exact ⟨h.contents, List.rel_append hkept (.cons hget .nil), h.world⟩
  case lookup =>
    refine ⟨h.contents, List.rel_append hkept ?_, h.world⟩
    rw [h.isSome_get? name]
    rcases hget : s.table.get? name with _ | k
    · exact .nil
    · exact .cons hget .nil
  case update =>
    have hall := List.forall₂_iff_get.1 h.held
    by_cases hi : i < s.held.length
    · have hi' : i < t.held.length := hall.1 ▸ hi
      have hget : s.table.get? t.held[i] = some s.held[i] := hall.2 i hi hi'
      simp only [TableSession.call, NamedSession.call, List.getElem?_eq_getElem hi,
        List.getElem?_eq_getElem hi'] at hkept ⊢
      refine ⟨?_, hkept, h.world⟩
      rw [SharedTable.contents_update hget, h.contents]
    · have hi' : ¬ i < t.held.length := hall.1 ▸ hi
      simp only [TableSession.call, NamedSession.call, List.getElem?_eq_none (Nat.not_lt.1 hi),
        List.getElem?_eq_none (Nat.not_lt.1 hi')]
      exact h
  case names => exact ⟨h.contents, hkept, h.world⟩
  case entries =>
    refine ⟨h.contents, List.rel_append hkept ?_, h.world⟩
    rw [← h.contents, SharedTable.names_contents, SharedTable.names,
      List.forall₂_map_left_iff, List.forall₂_map_right_iff, List.forall₂_same]
    intro e he
    exact SharedTable.mem_entries.1 he

/-! ### Whole runs -/

/-- A table in use holds what a table of plain entries holds, and its handles lead where the names
lead for which they were handed out. -/
theorem run_shows (w : σ) (calls : List (TableCall σ α)) :
    (run w calls).Shows (NamedSession.run w calls) := by
  have hfrom : ∀ {s : TableSession σ α} {t : NamedSession σ α}, s.Shows t →
      (calls.foldl call s).Shows (calls.foldl NamedSession.call t) := by
    induction calls with
    | nil => exact id
    | cons c rest ih => exact fun h => ih (h.call c)
  exact hfrom ⟨SharedTable.contents_empty, .nil, rfl⟩

theorem get?_run_append {w : σ} {past : List (TableCall σ α)} {name : String} {h : EntryHandle}
    (hget : (run w past).table.get? name = some h) (later : List (TableCall σ α)) :
    (run w (past ++ later)).table.get? name = some h := by
  have hfrom : ∀ s : TableSession σ α, s.table.get? name = some h →
      (later.foldl call s).table.get? name = some h := by
    induction later with
    | nil => exact fun _ hget => hget
    | cons c rest ih => exact fun s hget => ih (s.call c) (get?_call hget c)
  rw [run, List.foldl_append]
  exact hfrom _ hget

theorem get?_run_eq_none_iff (w : σ) (calls : List (TableCall σ α)) (name : String) :
    (run w calls).table.get? name = none ↔ name ∉ requestedNames calls := by
  have hfrom : ∀ s : TableSession σ α, (calls.foldl call s).table.get? name = none
      ↔ s.table.get? name = none ∧ name ∉ requestedNames calls := by
    induction calls with
    | nil => simp [requestedNames]
    | cons c rest ih =>
        intro s
        rw [List.foldl_cons, ih, get?_call_eq_none_iff]
        simp only [requestedNames, List.flatMap_cons, List.mem_append, not_or, and_assoc]
  rw [run, hfrom]
  exact and_iff_right (SharedTable.get?_empty name)

theorem exists_get?_run_iff (w : σ) (calls : List (TableCall σ α)) (name : String) :
    (∃ h, (run w calls).table.get? name = some h) ↔ name ∈ requestedNames calls := by
  rw [← Option.ne_none_iff_exists', ne_eq, get?_run_eq_none_iff, Decidable.not_not]

theorem mem_names_run (w : σ) (calls : List (TableCall σ α)) (name : String) :
    name ∈ (run w calls).table.names ↔ name ∈ requestedNames calls := by
  rw [SharedTable.mem_names, exists_get?_run_iff]

theorem size_run (w : σ) (calls : List (TableCall σ α)) :
    (run w calls).table.size = (requestedNames calls).dedup.length := by
  have hnodup : (run w calls).table.names.Nodup :=
    (run w calls).table.entries_ascend.names_nodup
  rw [← SharedTable.length_names]
  apply List.Perm.length_eq
  apply (List.perm_ext_iff_of_nodup hnodup (List.nodup_dedup _)).2
  intro name
  rw [mem_names_run, List.mem_dedup]

/-- Every handle that was handed out is that of a name that was asked for. -/
theorem exists_get?_of_mem_held {w : σ} {calls : List (TableCall σ α)} {h : EntryHandle}
    (hmem : h ∈ (run w calls).held) : ∃ name, (run w calls).table.get? name = some h := by
  have hall : List.Forall₂ (fun h name => (∃ name, (run w calls).table.get? name = some h) ∧
      (run w calls).table.get? name = some h) (run w calls).held (NamedSession.run w calls).held :=
    (run_shows w calls).held.imp fun h name hget => ⟨⟨name, hget⟩, hget⟩
  exact ((List.forall₂_and_left _ _).1 hall).1 h hmem

/-- A table makes the entry of a name when the name is asked for the first time, and keeps it. At
every point of every run, asking for a name runs the maker exactly if no call before has asked for
it; nothing is found exactly for the names that were never asked for; a name keeps its handle, under
which every later request and lookup finds the entry; a change through a handle changes the entry of
its name and no other, so that the table holds what a table of plain entries holds; and the listings
have every name that was asked for, once and in ascending order. -/
theorem run_makes_each_entry_once (w : σ) (past : List (TableCall σ α)) :
    let s := run w past
    (∀ name (make : StateM σ α) (v : σ),
      if name ∈ requestedNames past then
        ∃ h, s.table.get? name = some h ∧ s.table.getOrInsert name make v = ((h, s.table), v)
      else
        ∃ h t, s.table.getOrInsert name make v = ((h, t), (make v).2) ∧
          t.get? name = some h ∧ t.read h = some (make v).1) ∧
    (∀ name, s.table.get? name = none ↔ name ∉ requestedNames past) ∧
    (∀ name h, s.table.get? name = some h → ∀ later,
      let t := (run w (past ++ later)).table
      t.get? name = some h ∧
        ∀ (make : StateM σ α) v, t.getOrInsert name make v = ((h, t), v)) ∧
    (∀ h ∈ s.held, ∃ name ∈ requestedNames past, s.table.get? name = some h ∧
      ∀ f other k, s.table.get? other = some k →
        (s.table.update h f).get? other = some k ∧
        (s.table.update h f).read k
          = if other = name then (s.table.read k).map f else s.table.read k) ∧
    s.Shows (NamedSession.run w past) ∧
    s.table.size = (requestedNames past).dedup.length ∧
    s.table.names.Pairwise NamePrecedes ∧
    (∀ name, name ∈ s.table.names ↔ name ∈ requestedNames past) ∧
    s.table.entries.map (·.1) = s.table.names ∧
    ∀ name h, (name, h) ∈ s.table.entries ↔ s.table.get? name = some h := by
  intro s
  refine ⟨?_, get?_run_eq_none_iff w past, ?_, ?_, run_shows w past, size_run w past,
    List.pairwise_map.2 s.table.entries_ascend, mem_names_run w past, rfl,
    fun _ _ => SharedTable.mem_entries⟩
  · intro name make v
    split
    case isTrue hasked =>
      rcases (exists_get?_run_iff w past name).2 hasked with ⟨h, hget⟩
      exact ⟨h, hget, SharedTable.getOrInsert_of_get?_eq_some hget make v⟩
    case isFalse hasked =>
      have hget : s.table.get? name = none := (get?_run_eq_none_iff w past name).2 hasked
      refine ⟨_, _, SharedTable.getOrInsert_of_get?_eq_none hget make v, ?_, ?_⟩
      · rw [SharedTable.get?_add, if_pos rfl]
      · exact SharedTable.read_add_nextHandle _ _ _
  · intro name h hget later t
    have hlater : t.get? name = some h := get?_run_append hget later
    exact ⟨hlater, SharedTable.getOrInsert_of_get?_eq_some hlater⟩
  · intro h hmem
    rcases exists_get?_of_mem_held hmem with ⟨name, hget⟩
    refine ⟨name, (exists_get?_run_iff w past name).1 ⟨h, hget⟩, hget, ?_⟩
    intro f other k hother
    exact ⟨hother, SharedTable.read_update_of_get? hget hother f⟩

end TableSession

end RenderFold
