/-
Tables of shared entries.

Asking for a name hands out the handle of its entry, which is read and changed through handles, also
long after they were handed out. The names are kept in no particular order; a listing is a sorted
snapshot.
-/
import Std.Data.HashMap
import RenderFold.NameTable

namespace RenderFold

/-- Where the entry of a name is kept. -/
structure EntryHandle where
  cell : Nat
deriving DecidableEq, Repr

/-- A table from names to shared entries: the entries in the order in which they were made, and
where the entry of each name is. No two names share an entry. -/
structure SharedTable (α : Type) where
  cells : Array α
  handles : Std.HashMap String EntryHandle
  allocated : ∀ {name : String} {h : EntryHandle}, handles[name]? = some h → h.cell < cells.size
  separate : ∀ {a b : String} {h : EntryHandle},
    handles[a]? = some h → handles[b]? = some h → a = b

namespace SharedTable

variable {α σ : Type}

def empty : SharedTable α where
  cells := #[]
  handles := ∅
  allocated := by simp
  separate := by simp

instance : Inhabited (SharedTable α) := ⟨empty⟩

def get? (t : SharedTable α) (name : String) : Option EntryHandle := t.handles[name]?

def size (t : SharedTable α) : Nat := t.handles.size

def isEmpty (t : SharedTable α) : Bool := t.size == 0

/-- A snapshot of the names with their handles, in order. -/
def entries (t : SharedTable α) : List (String × EntryHandle) :=
  t.handles.toList.mergeSort fun a b => !decide (NamePrecedes b.1 a.1)

def names (t : SharedTable α) : List String := t.entries.map (·.1)

def read (t : SharedTable α) (h : EntryHandle) : Option α := t.cells[h.cell]?

def update (t : SharedTable α) (h : EntryHandle) (f : α → α) : SharedTable α where
  cells := t.cells.modify h.cell f
  handles := t.handles
  allocated := by
    intro name held hget
    rw [Array.size_modify]
    exact t.allocated hget
  separate := t.separate

/-- The handle of the entry that is made next. -/
def nextHandle (t : SharedTable α) : EntryHandle := ⟨t.cells.size⟩

theorem getElem?_handles_insert {t : SharedTable α} {name other : String} {h : EntryHandle}
    (hget : (t.handles.insert name t.nextHandle)[other]? = some h) :
    (name = other ∧ h = t.nextHandle) ∨ (name ≠ other ∧ t.handles[other]? = some h) := by
  rw [Std.HashMap.getElem?_insert] at hget
  by_cases hname : name = other
  · simp only [hname, beq_self_eq_true, if_true, Option.some.injEq] at hget
    exact .inl ⟨hname, hget.symm⟩
  · simp only [beq_iff_eq, hname, if_false] at hget
    exact .inr ⟨hname, hget⟩

/-- Store a new entry under a name. -/
def add (t : SharedTable α) (name : String) (value : α) : SharedTable α where
  cells := t.cells.push value
  handles := t.handles.insert name t.nextHandle
  allocated := by
    intro other h hget
    rw [Array.size_push]
    rcases getElem?_handles_insert hget with ⟨_, rfl⟩ | ⟨_, hold⟩
    · exact Nat.lt_succ_self _
    · exact Nat.lt_succ_of_lt (t.allocated hold)
  separate := by
    intro a b h ha hb
    -- a handle that was given before is not the next one
    have hfresh : ∀ {name : String}, t.handles[name]? ≠ some t.nextHandle := by
      intro name hold
      exact Nat.lt_irrefl _ (t.allocated hold)
    rcases getElem?_handles_insert ha with ⟨rfl, rfl⟩ | ⟨_, ha⟩
    · rcases getElem?_handles_insert hb with ⟨hname, _⟩ | ⟨_, hb⟩
      · exact hname
      · exact absurd hb hfresh
    · rcases getElem?_handles_insert hb with ⟨_, rfl⟩ | ⟨_, hb⟩
      · exact absurd ha hfresh
      · exact t.separate ha hb

/-- The handle of a name, whose entry is made and stored if there is none yet. -/
def getOrInsert (t : SharedTable α) (name : String) (make : StateM σ α) :
    StateM σ (EntryHandle × SharedTable α) :=
  match t.get? name with
  | some found => pure (found, t)
  | none => do
      let made ← make
      return (t.nextHandle, t.add name made)

end SharedTable

end RenderFold
