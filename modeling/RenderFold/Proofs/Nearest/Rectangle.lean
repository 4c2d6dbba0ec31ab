/-
The search in a rectangle of the tile.

`FillsIn` compares an array of answers with the one before: at some places it has the answers of the
full search, elsewhere it is unchanged. Calls one after another fill the places of all of them,
whether these overlap or not (`FillsIn.trans`), and so do the loops over columns and rows. No check
along the way can fail: columns and rows stay below eight, and each phase begins at a ring.
-/
import Mathlib.Data.Set.Basic
import RenderFold.Proofs.Nearest

namespace RenderFold

namespace Nearest

theorem get_eq_getElem {α : Type} {n : Nat} (v : Vector α n) (i : Fin n) : v.get i = v[i.val] := rfl

/-! ### The checks of the search -/

section Checks

variable {mask : Tile} {rings : List Tile}

/-- Where each phase begins at one of the rings or right after them, no check fails. -/
theorem nearestFrom_eq_ok {bundle : Nat} (phases : List Tile) (k : Nat)
    (hstart : ∀ j < phases.length, (k + j) * bundle ≤ rings.length) :
    nearestFrom mask bundle rings k phases
      = .ok ((phases.zipIdx k).findSome? fun e =>
          if Tile.inter e.1 mask = 0 then none else firstHit mask (rings.drop (e.2 * bundle))) := by
  induction phases generalizing k with
  | nil => rfl
  | cons phase rest ih =>
      have hrest := ih (k + 1) fun j hj => by
        rw [Nat.add_assoc, Nat.add_comm 1 j]
        exact hstart (j + 1) (Nat.succ_lt_succ hj)
      simp only [nearestFrom, List.zipIdx_cons, List.findSome?_cons, hrest]
      by_cases hmiss : Tile.inter phase mask = 0
      · simp only [hmiss, if_true]
      · have hbegin : k * bundle ≤ rings.length := hstart 0 (Nat.zero_lt_succ _)
        simp only [hmiss, if_false, ringsFrom, hbegin, if_true]
        cases hhit : firstHit mask (rings.drop (k * bundle)) with
        | none => simp [hhit, bind, Except.bind]
        | some q => simp [hhit, bind, Except.bind, pure, Except.pure]

/-- Every phase begins at a ring. -/
theorem phase_start_le {bundle : Nat} (hpos : 0 < bundle) {k : Nat}
    (hk : k < (bundled bundle rings).length) : k * bundle ≤ rings.length := by
  have hcount : (bundled bundle rings).length = (rings.length + bundle - 1) / bundle := by
    simp [bundled]
  have hnext : (k + 1) * bundle ≤ rings.length + bundle - 1 :=
    (Nat.le_div_iff_mul_le hpos).1 (hcount ▸ hk)
  rw [Nat.succ_mul] at hnext
  omega

theorem checkedAround_eq_ok (mask : Tile) (bundle : Fin maxBundle) (p : PixelId) :
    checkedAround tables mask (bundle.val + 1) p = .ok (around tables mask bundle p) := by
  have hrings : tables.rings p.val = .ok (tables.ringTable.get p) := by
    simp [Tables.rings, get_eq_getElem]
  have hphases : tables.phases (bundle.val + 1) p.val
      = .ok ((tables.phaseTable.get bundle).get p) := by
    simp [Tables.phases, get_eq_getElem]
  have hstart : ∀ j < ((tables.phaseTable.get bundle).get p).length,
      (0 + j) * (bundle.val + 1) ≤ (tables.ringTable.get p).length := by
    rw [tables_phases, tables_rings]
    intro j hj
    rw [Nat.zero_add]
    exact phase_start_le (Nat.succ_pos _) hj
  simp only [checkedAround, hrings, hphases, bind, Except.bind, nearestFrom_eq_ok _ 0 hstart]
  rfl

theorem clampBundle_bundleFor (mask : Tile) :
    (clampBundle (bundleFor mask)).val + 1 = bundleFor mask := by
  simp only [clampBundle, bundleFor, maxBundle]
  split
  · rfl
  · split <;> rfl

end Checks

/-! ### Places that are filled in -/

def Span.Has (s : Span) (i : Nat) : Prop := s.first.toNat ≤ i ∧ i < s.stop.toNat

instance (s : Span) (i : Nat) : Decidable (s.Has i) := inferInstanceAs (Decidable (_ ∧ _))

/-- The places whose column and row lie in the given ranges. -/
def rectangle (xs ys : Span) : Set PixelId := {p | xs.Has p.column ∧ ys.Has p.row}

/-- `found` has the answers of `full` at the given places and those of `ids` at all others. -/
structure FillsIn (full ids found : Ids) (places : Set PixelId) : Prop where
  inside : ∀ p ∈ places, found.get p = full.get p
  outside : ∀ p ∉ places, found.get p = ids.get p

section Fill

variable {full ids found last : Ids} {places later : Set PixelId}

theorem fillsIn_empty (full ids : Ids) : FillsIn full ids ids ∅ :=
  ⟨fun _ hp => hp.elim, fun _ _ => rfl⟩

/-- What is filled in later does not undo what was filled in before. -/
theorem FillsIn.trans (hfound : FillsIn full ids found places)
    (hlast : FillsIn full found last later) : FillsIn full ids last (places ∪ later) := by
  constructor
  · intro p hp
    by_cases hlater : p ∈ later
    · exact hlast.inside p hlater
    · rw [hlast.outside p hlater]
      exact hfound.inside p (hp.resolve_right hlater)
  · intro p hp
    rw [Set.mem_union, not_or] at hp
    rw [hlast.outside p hp.2, hfound.outside p hp.1]

theorem FillsIn.set (full ids : Ids) (p : PixelId) :
    FillsIn full ids (ids.setIfInBounds p.val (full.get p)) {p} := by
  constructor
  · rintro q rfl
    simp [get_eq_getElem]
  · intro q hq
    have hne : p.val ≠ q.val := fun heq => hq (Fin.ext heq.symm)
    simp [get_eq_getElem, hne]

/-- Where everything is filled in, nothing is left of the array before. -/
theorem FillsIn.eq_of_forall_mem (hfound : FillsIn full ids found places)
    (hall : ∀ p, p ∈ places) : found = full := by
  apply Vector.ext
  intro i hi
  exact hfound.inside ⟨i, hi⟩ (hall ⟨i, hi⟩)

/-- Steps that each fill in places of their own fill in the places of all of them. -/
theorem foldlM_fillsIn {κ : Type} {step : Ids → κ → Except Fault Ids} {placesOf : κ → Set PixelId}
    (full : Ids) (keys : List κ)
    (hstep : ∀ key ∈ keys, ∀ ids, ∃ found, step ids key = .ok found ∧
      FillsIn full ids found (placesOf key)) (ids : Ids) :
    ∃ found, keys.foldlM step ids = .ok found ∧
      FillsIn full ids found {p | ∃ key ∈ keys, p ∈ placesOf key} := by
  induction keys generalizing ids with
  | nil =>
      refine ⟨ids, rfl, ?_⟩
      simpa using fillsIn_empty full ids
  | cons key rest ih =>
      obtain ⟨next, hnext, hfill⟩ := hstep key List.mem_cons_self ids
      obtain ⟨found, hfound, hrest⟩ :=
        ih (fun k hk => hstep k (List.mem_cons_of_mem key hk)) next
      refine ⟨found, ?_, ?_⟩
      · rw [List.foldlM_cons, hnext]
        exact hfound
      · have hplaces : {p | ∃ k ∈ key :: rest, p ∈ placesOf k}
            = placesOf key ∪ {p | ∃ k ∈ rest, p ∈ placesOf k} := by
          ext p
          simp
        rw [hplaces]
        exact hfill.trans hrest

end Fill

/-! ### Rectangles -/

/-- A range goes through its numbers below eight. -/
theorem mem_indices {s : Span} {i : UInt32} :
    i ∈ s.indices ↔ i.toNat < 8 ∧ s.Has i.toNat := by
  simp only [Span.indices, List.mem_map, List.mem_range'_1, Span.Has]
  constructor
  · rintro ⟨n, hn, rfl⟩
    have hval : (UInt32.ofNat n).toNat = n :=
      UInt32.toNat_ofNat_of_lt' (by rw [UInt32.size]; omega)
    omega
  · intro hi
    exact ⟨i.toNat, by omega, UInt32.ofNat_toNat⟩

theorem ofCoords_eq_ok {x y : UInt32} (hx : x.toNat < 8) (hy : y.toNat < 8) :
    PixelId.ofCoords x y = .ok (.wrap x y) := if_pos ⟨UInt32.lt_iff_toNat_lt.2 hx,
      UInt32.lt_iff_toNat_lt.2 hy⟩

/-- The coordinates in two ranges are the columns and rows of a rectangle. -/
theorem mem_rectangle_iff {xs ys : Span} {p : PixelId} :
    p ∈ rectangle xs ys ↔ ∃ y ∈ ys.indices, ∃ x ∈ xs.indices, p = .wrap x y := by
  simp only [mem_indices]
  constructor
  · rintro ⟨hcolumn, hrow⟩
    have hp := p.isLt
    have hx : (UInt32.ofNat p.column).toNat = p.column :=
      UInt32.toNat_ofNat_of_lt' (by rw [UInt32.size, PixelId.column]; omega)
    have hy : (UInt32.ofNat p.row).toNat = p.row :=
      UInt32.toNat_ofNat_of_lt' (by rw [UInt32.size, PixelId.row]; omega)
    refine ⟨_, ⟨?_, hy.symm ▸ hrow⟩, _, ⟨?_, hx.symm ▸ hcolumn⟩, ?_⟩
    · rw [hy, PixelId.row]
      omega
    · rw [hx, PixelId.column]
      omega
    · apply Fin.ext
      simp only [PixelId.wrap, hx, hy]
      simp only [PixelId.column, PixelId.row]
      omega
  · rintro ⟨y, ⟨hy, hrow⟩, x, ⟨hx, hcolumn⟩, rfl⟩
    have hplace : (PixelId.wrap x y).column = x.toNat ∧ (PixelId.wrap x y).row = y.toNat := by
      simp only [PixelId.column, PixelId.row, PixelId.wrap]
      omega
    rw [rectangle, Set.mem_ofPred_eq, hplace.1, hplace.2]
    exact ⟨hcolumn, hrow⟩

section Search

variable {mask : Tile} {full : Ids}

/-- Filling in a position of the tile puts there what the full search answers. -/
theorem fillAt_fillsIn (hfull : search mask = .ok full) {x y : UInt32} (hx : x.toNat < 8)
    (hy : y.toNat < 8) (ids : Ids) :
    ∃ found, fillAt mask ids x y = .ok found ∧ FillsIn full ids found {PixelId.wrap x y} := by
  have hanswer : full.get (PixelId.wrap x y)
      = (around tables mask (clampBundle (bundleFor mask)) (.wrap x y)).val.toUInt8 := by
    rw [search, searchBundled] at hfull
    split at hfull
    · cases hfull
    · obtain rfl := Except.ok.inj hfull
      rw [get_eq_getElem, Vector.getElem_ofFn]
  have hchecked := checkedAround_eq_ok mask (clampBundle (bundleFor mask)) (.wrap x y)
  rw [clampBundle_bundleFor] at hchecked
  refine ⟨_, ?_, FillsIn.set full ids (PixelId.wrap x y)⟩
  simp only [fillAt, ofCoords_eq_ok hx hy, hchecked, hanswer, bind, Except.bind, pure, Except.pure]

/-- Filling in a rectangle puts there what the full search answers. -/
theorem searchWithin_fillsIn (hfull : search mask = .ok full) (xs ys : Span) (ids : Ids) :
    ∃ found, searchWithin mask ids xs ys = .ok found ∧
      FillsIn full ids found (rectangle xs ys) := by
  have hmask : mask ≠ 0 := by
    rintro rfl
    cases hfull
  have hrow : ∀ y ∈ ys.indices, ∀ ids, ∃ found,
      xs.indices.foldlM (fun ids x => fillAt mask ids x y) ids = .ok found ∧
        FillsIn full ids found {p | ∃ x ∈ xs.indices, p ∈ ({PixelId.wrap x y} : Set PixelId)} := by
    intro y hy
    apply foldlM_fillsIn full xs.indices
    intro x hx
    exact fillAt_fillsIn hfull (mem_indices.1 hx).1 (mem_indices.1 hy).1
  obtain ⟨found, hfound, hfill⟩ := foldlM_fillsIn full ys.indices hrow ids
  refine ⟨found, ?_, ?_⟩
  · rw [searchWithin, if_neg hmask]
    exact hfound
  · have hplaces : rectangle xs ys = {p | ∃ y ∈ ys.indices,
        p ∈ {p | ∃ x ∈ xs.indices, p ∈ ({PixelId.wrap x y} : Set PixelId)}} := by
      ext p
      exact mem_rectangle_iff
    rw [hplaces]
    exact hfill

/-- Searching in rectangles is searching. Whatever the ranges are, a call never faults, it fills in
the answers of the full search at the places of its rectangle, and it touches no other place. So
rectangles that cover the tile give the full search, in any order and however they overlap. -/
theorem searchWithin_agrees (hmask : mask ≠ 0) : ∃ full, search mask = .ok full ∧
    (∀ ids xs ys, ∃ found, searchWithin mask ids xs ys = .ok found ∧
      FillsIn full ids found (rectangle xs ys)) ∧
    ∀ ids (rects : List (Span × Span)), ∃ found,
      rects.foldlM (fun ids r => searchWithin mask ids r.1 r.2) ids = .ok found ∧
        FillsIn full ids found {p | ∃ r ∈ rects, p ∈ rectangle r.1 r.2} ∧
        ((∀ p, ∃ r ∈ rects, p ∈ rectangle r.1 r.2) → found = full) := by
  have hfull : search mask
      = .ok (Vector.ofFn fun p =>
          (around tables mask (clampBundle (bundleFor mask)) p).val.toUInt8) := if_neg hmask
  refine ⟨_, hfull, fun ids xs ys => searchWithin_fillsIn hfull xs ys ids, fun ids rects => ?_⟩
  obtain ⟨found, hfound, hfill⟩ := foldlM_fillsIn _ rects
    (fun r _ ids => searchWithin_fillsIn hfull r.1 r.2 ids) ids
  exact ⟨found, hfound, hfill, hfill.eq_of_forall_mem⟩

/-- The lower rows with a range that reaches past the tile, a reversed range that fills in nothing,
and the upper rows once more with part of the lower ones. -/
theorem searchWithin_agrees_of_cover :
    (0x8000000000000001 : Tile) ≠ 0 ∧ ∃ full, search 0x8000000000000001 = .ok full ∧
      [((⟨0, 9⟩, ⟨0, 4⟩) : Span × Span), (⟨5, 2⟩, ⟨0, 8⟩), (⟨0, 0xffffffff⟩, ⟨3, 8⟩)].foldlM
        (fun ids r => searchWithin 0x8000000000000001 ids r.1 r.2) (Vector.replicate 64 255)
        = .ok full := by
  have hmask : (0x8000000000000001 : Tile) ≠ 0 := by decide
  obtain ⟨full, hfull, -, hrects⟩ := searchWithin_agrees hmask
  obtain ⟨found, hfound, -, hcover⟩ := hrects (Vector.replicate 64 255)
    [(⟨0, 9⟩, ⟨0, 4⟩), (⟨5, 2⟩, ⟨0, 8⟩), (⟨0, 0xffffffff⟩, ⟨3, 8⟩)]
  refine ⟨hmask, full, hfull, hfound.trans (congrArg _ (hcover ?_))⟩
  simp only [rectangle, Set.mem_ofPred_eq]
  decide +kernel

end Search

end Nearest

end RenderFold
