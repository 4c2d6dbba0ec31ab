/-
Tables from names to entries.

The entries are listed by name, in ascending order of the bytes of the names' UTF-8 form, and no
name is listed twice. There is no operation that takes an entry away.
-/
namespace RenderFold

def nameBytes (name : String) : List UInt8 := name.toUTF8.data.toList

/-- One name is listed before another. -/
def NamePrecedes (a b : String) : Prop := nameBytes a < nameBytes b

instance : DecidableRel NamePrecedes := fun a b =>
  inferInstanceAs (Decidable (nameBytes a < nameBytes b))

theorem nameBytes_inj {a b : String} (h : nameBytes a = nameBytes b) : a = b := by
  apply String.toByteArray_inj.1
  exact ByteArray.ext (Array.toList_inj.1 h)

theorem namePrecedes_irrefl (a : String) : ¬ NamePrecedes a a := List.lt_irrefl _

theorem NamePrecedes.trans {a b c : String} (hab : NamePrecedes a b) (hbc : NamePrecedes b c) :
    NamePrecedes a c := List.lt_trans hab hbc

/-- Of two different names one is listed before the other. -/
theorem namePrecedes_of_not {a b : String} (hne : a ≠ b) (h : ¬ NamePrecedes a b) :
    NamePrecedes b a := by
  apply Decidable.byContradiction
  intro hba
  exact hne (nameBytes_inj (List.le_antisymm (List.not_lt.1 hba) (List.not_lt.1 h)))

variable {α β : Type}

/-- Entries by name, in ascending order and without repetition. -/
def NamesAscend (entries : List (String × α)) : Prop :=
  entries.Pairwise fun a b => NamePrecedes a.1 b.1

/-- A table from names to entries. -/
structure NameTable (α : Type) where
  entries : List (String × α)
  ascending : NamesAscend entries

namespace NameTable

def empty : NameTable α := ⟨[], .nil⟩

instance : Inhabited (NameTable α) := ⟨empty⟩

def size (t : NameTable α) : Nat := t.entries.length

def isEmpty (t : NameTable α) : Bool := t.entries.isEmpty

def names (t : NameTable α) : List String := t.entries.map (·.1)

def get? (t : NameTable α) (name : String) : Option α :=
  (t.entries.find? fun e => e.1 = name).map (·.2)

/-- Put an entry in its place, in the stead of an entry of the same name. -/
def putEntry (name : String) (value : α) : List (String × α) → List (String × α)
  | [] => [(name, value)]
  | e :: rest =>
      if e.1 = name then (name, value) :: rest
      else if NamePrecedes name e.1 then (name, value) :: e :: rest
      else e :: putEntry name value rest

theorem mem_putEntry {name : String} {value : α} {entries : List (String × α)}
    {e : String × α} (h : e ∈ putEntry name value entries) : e = (name, value) ∨ e ∈ entries := by
  induction entries with
  | nil => simpa [putEntry] using h
  | cons head rest ih =>
      simp only [putEntry] at h
      split at h
      · simp only [List.mem_cons] at h ⊢
        rcases h with h | h
        · exact .inl h
        · exact .inr (.inr h)
      · split at h
        · simpa only [List.mem_cons] using h
        · simp only [List.mem_cons] at h ⊢
          rcases h with h | h
          · exact .inr (.inl h)
          · rcases ih h with h | h
            · exact .inl h
            · exact .inr (.inr h)

theorem namesAscend_putEntry (name : String) (value : α) {entries : List (String × α)}
    (h : NamesAscend entries) : NamesAscend (putEntry name value entries) := by
  induction entries with
  | nil => simp [putEntry, NamesAscend]
  | cons head rest ih =>
      obtain ⟨hhead, hrest⟩ := List.pairwise_cons.1 h
      simp only [putEntry]
      split
      · rename_i heq
        exact List.pairwise_cons.2 ⟨fun e he => heq ▸ hhead e he, hrest⟩
      · rename_i hne
        split
        · rename_i hlt
          refine List.pairwise_cons.2 ⟨fun e he => ?_, h⟩
          rcases List.mem_cons.1 he with rfl | he
          · exact hlt
          · exact hlt.trans (hhead e he)
        · rename_i hnot
          refine List.pairwise_cons.2 ⟨fun e he => ?_, ih hrest⟩
          rcases mem_putEntry he with rfl | he
          · exact namePrecedes_of_not (fun h => hne h.symm) hnot
          · exact hhead e he

def put (t : NameTable α) (name : String) (value : α) : NameTable α :=
  ⟨putEntry name value t.entries, namesAscend_putEntry name value t.ascending⟩

/-- The entry of a name, made and stored if there is none yet. Returns whether it was made. -/
def getOrInsert (t : NameTable α) (name : String) (make : Unit → α) : α × Bool × NameTable α :=
  match t.get? name with
  | some found => (found, false, t)
  | none =>
      let made := make ()
      (made, true, t.put name made)

def mapEntries (f : String → α → β) (t : NameTable α) : NameTable β where
  entries := t.entries.map fun e => (e.1, f e.1 e.2)
  ascending := by
    rw [NamesAscend, List.pairwise_map]
    exact t.ascending

/-- Change the entry of a name, if there is one. -/
def update (t : NameTable α) (name : String) (f : α → α) : NameTable α :=
  t.mapEntries fun n value => if n = name then f value else value

end NameTable

end RenderFold
