/-
The nearest-pixel search finds the nearest pixel.

`IsNearest` says what is looked for, without rings and without phases. The rings around a pixel are
`NearestFirst` and together hold every pixel, so that the first ring which meets a mask holds the
nearest pixels of the mask. Phases only save work: passing over a phase that misses the mask passes
over rings that all miss it, whatever the size of the bundles.
-/
import Mathlib.Logic.Basic
import RenderFold.Proofs.Nearest.Rings

namespace RenderFold

namespace PixelId

theorem distance_self (p : PixelId) : p.distance p = 0 := by
  simp [distance]

end PixelId

namespace Nearest

/-- A pixel of the mask that is nearest to `p`, the lowest one if several are equally near. -/
def IsNearest (mask : Tile) (p q : PixelId) : Prop :=
  Tile.has mask q = true ∧ ∀ r, Tile.has mask r = true →
    p.distance q < p.distance r ∨ p.distance q = p.distance r ∧ q ≤ r

instance (mask : Tile) (p q : PixelId) : Decidable (IsNearest mask p q) :=
  inferInstanceAs (Decidable (_ ∧ ∀ _, _ → _))

section Goal

variable {mask : Tile} {p q r : PixelId}

theorem IsNearest.unique (hq : IsNearest mask p q) (hr : IsNearest mask p r) : r = q := by
  rcases hq.2 r hr.1 with hlt | ⟨heq, hle⟩
  · rcases hr.2 q hq.1 with hlt' | ⟨heq', -⟩
    · omega
    · omega
  · rcases hr.2 q hq.1 with hlt' | ⟨-, hle'⟩
    · omega
    · exact Fin.le_antisymm hle' hle

/-- A pixel of the mask is the only one at no distance. -/
theorem isNearest_self (hp : Tile.has mask p = true) : IsNearest mask p p := by
  refine ⟨hp, fun r _ => ?_⟩
  rw [p.distance_self]
  rcases Nat.eq_zero_or_pos (p.distance r) with hzero | hpos
  · have hplace : p.column = r.column ∧ p.row = r.row := by
      simp only [PixelId.distance, Nat.add_eq_zero_iff, Nat.mul_eq_zero, or_self] at hzero
      omega
    simp only [PixelId.column, PixelId.row] at hplace
    exact .inr ⟨hzero.symm, Fin.le_def.2 (by omega)⟩
  · exact .inl hpos

end Goal

/-! ### Rings -/

/-- Rings in the order of a search around `p`: the pixels of a ring are equally far away, and the
ones of a later ring are farther. -/
structure NearestFirst (p : PixelId) (rings : List Tile) : Prop where
  level : ∀ ring ∈ rings, ∀ q r, Tile.has ring q = true → Tile.has ring r = true →
    p.distance q = p.distance r
  ascending : rings.Pairwise fun near far => ∀ q r, Tile.has near q = true →
    Tile.has far r = true → p.distance q < p.distance r

theorem has_ring (p : PixelId) (distance : Nat) (q : PixelId) :
    Tile.has (ring p distance) q = decide (p.distance q = distance) := Tile.has_ofPred _ q

theorem mem_ringsAround {p : PixelId} {t : Tile} :
    t ∈ ringsAround p ↔ (∃ d < distanceBound, ring p d = t) ∧ t ≠ 0 := by
  simp [ringsAround_eq_levels]

theorem ringsAround_nearestFirst (p : PixelId) : NearestFirst p (ringsAround p) := by
  constructor
  · intro t ht q r hq hr
    obtain ⟨⟨d, -, rfl⟩, -⟩ := mem_ringsAround.1 ht
    rw [has_ring, decide_eq_true_eq] at hq hr
    exact hq.trans hr.symm
  · rw [ringsAround_eq_levels]
    refine List.Pairwise.filter _ (List.pairwise_map.2 (List.pairwise_lt_range.imp ?_))
    intro d e hlt q r hq hr
    rw [has_ring, decide_eq_true_eq] at hq hr
    omega

/-- Every pixel lies on a ring. -/
theorem exists_ring (p q : PixelId) : ∃ t ∈ ringsAround p, Tile.has t q = true := by
  have hq : Tile.has (ring p (p.distance q)) q = true := by simp [has_ring]
  refine ⟨_, mem_ringsAround.2 ⟨⟨_, distance_lt p q, rfl⟩, ?_⟩, hq⟩
  intro hzero
  simp [hzero] at hq

/-! ### The first hit -/

section Hit

variable {mask : Tile} {p q : PixelId} {rings : List Tile}

theorem inter_ne_zero_iff {s t : Tile} :
    Tile.inter s t ≠ 0 ↔ ∃ q, Tile.has s q = true ∧ Tile.has t q = true := by
  simp only [Tile.ne_zero_iff, Tile.has_inter, Bool.and_eq_true]

theorem firstHit_cons (t : Tile) :
    firstHit mask (t :: rings)
      = if Tile.inter t mask = 0 then firstHit mask rings
        else some (Tile.lowest (Tile.inter t mask)) := by
  rw [firstHit, List.findSome?_cons]
  by_cases hmiss : Tile.inter t mask = 0
  · simp [hmiss, firstHit]
  · simp [hmiss]

theorem firstHit_append (near far : List Tile) :
    firstHit mask (near ++ far) = (firstHit mask near).or (firstHit mask far) :=
  List.findSome?_append

/-- The first hit on rings that hold all of the mask is the nearest pixel of the mask. -/
theorem isNearest_of_firstHit (hrings : NearestFirst p rings)
    (hall : ∀ r, Tile.has mask r = true → ∃ t ∈ rings, Tile.has t r = true)
    (hhit : firstHit mask rings = some q) : IsNearest mask p q := by
  induction rings with
  | nil => cases hhit
  | cons t rest ih =>
      obtain ⟨hfar, hrest⟩ := List.pairwise_cons.1 hrings.ascending
      rw [firstHit_cons] at hhit
      split at hhit
      · -- the ring misses the mask, so that the later rings hold all of it
        rename_i hmiss
        refine ih ⟨fun s hs => hrings.level s (List.mem_cons_of_mem t hs), hrest⟩ ?_ hhit
        intro r hr
        obtain ⟨s, hs, hsr⟩ := hall r hr
        rcases List.mem_cons.1 hs with rfl | hs
        · exact absurd hmiss (inter_ne_zero_iff.2 ⟨r, hsr, hr⟩)
        · exact ⟨s, hs, hsr⟩
      · rename_i hmeets
        obtain rfl := Option.some.inj hhit
        have hlow := Tile.has_lowest hmeets
        rw [Tile.has_inter, Bool.and_eq_true] at hlow
        refine ⟨hlow.2, fun r hr => ?_⟩
        obtain ⟨s, hs, hsr⟩ := hall r hr
        rcases List.mem_cons.1 hs with rfl | hs
        · have hle : Tile.lowest (Tile.inter s mask) ≤ r :=
            Tile.lowest_le hmeets (by rw [Tile.has_inter, hsr, hr]; rfl)
          exact .inr ⟨hrings.level s List.mem_cons_self _ r hlow.1 hsr, hle⟩
        · exact .inl (hfar s hs _ r hlow.1 hsr)

theorem firstHit_eq_none_iff :
    firstHit mask rings = none ↔ ∀ t ∈ rings, Tile.inter t mask = 0 := by
  simp only [firstHit, List.findSome?_eq_none_iff, ite_eq_left_iff, reduceCtorEq, imp_false,
    Decidable.not_not]

/-! ### Phases -/

theorem has_foldl_union (t : Tile) (rings : List Tile) (q : PixelId) :
    Tile.has (rings.foldl Tile.union t) q = true ↔
      Tile.has t q = true ∨ ∃ s ∈ rings, Tile.has s q = true := by
  induction rings generalizing t with
  | nil => simp
  | cons s rest ih => simp [ih, or_assoc]

/-- A phase misses the mask exactly if each of its rings does. -/
theorem inter_phase_eq_zero_iff :
    Tile.inter (rings.foldl Tile.union 0) mask = 0 ↔ firstHit mask rings = none := by
  rw [firstHit_eq_none_iff, ← not_iff_not]
  simp only [not_forall, ← ne_eq, inter_ne_zero_iff, has_foldl_union, exists_prop, Tile.has_zero,
    Bool.false_eq_true, false_or]
  constructor
  · rintro ⟨q, ⟨s, hs, hq⟩, hmask⟩
    exact ⟨s, hs, q, hq, hmask⟩
  · rintro ⟨s, hs, q, hq, hmask⟩
    exact ⟨q, ⟨s, hs, hq⟩, hmask⟩

def phase (bundle : Nat) (rings : List Tile) (k : Nat) : Tile :=
  ((rings.drop (k * bundle)).take bundle).foldl Tile.union 0

/-- What the search makes of a phase: nothing if the phase misses the mask, otherwise the first hit
from the first ring of the phase on. -/
def phaseHit (mask : Tile) (bundle : Nat) (rings : List Tile) (k : Nat) : Option PixelId :=
  if Tile.inter (phase bundle rings k) mask = 0 then none
  else firstHit mask (rings.drop (k * bundle))

/-- Going through the phases from `start` on, which reach beyond the last ring, is going through
the rings from the first one of that phase on. -/
theorem findSome?_phaseHit {bundle : Nat} (start n : Nat)
    (hend : rings.length ≤ (start + n) * bundle) :
    (List.range' start n).findSome? (phaseHit mask bundle rings)
      = firstHit mask (rings.drop (start * bundle)) := by
  induction n generalizing start with
  | zero =>
      have hnil : rings.drop (start * bundle) = [] := List.drop_eq_nil_of_le hend
      rw [hnil]
      rfl
  | succ n ih =>
      have hnext : (start + 1) * bundle = start * bundle + bundle := Nat.succ_mul start bundle
      have hrest := ih (start + 1) (by rwa [Nat.add_assoc, Nat.add_comm 1 n])
      have hsplit : firstHit mask (rings.drop (start * bundle))
          = (firstHit mask ((rings.drop (start * bundle)).take bundle)).or
            (firstHit mask (rings.drop ((start + 1) * bundle))) := by
        rw [← firstHit_append, hnext, ← List.drop_drop, List.take_append_drop]
      rw [List.range'_succ, List.findSome?_cons, hrest, phaseHit, phase]
      by_cases hmiss : firstHit mask ((rings.drop (start * bundle)).take bundle) = none
      · rw [if_pos (inter_phase_eq_zero_iff.2 hmiss), hsplit, hmiss]
        rfl
      · obtain ⟨q, hq⟩ := Option.ne_none_iff_exists'.1 hmiss
        rw [if_neg (mt inter_phase_eq_zero_iff.1 hmiss), hsplit, hq]
        rfl

theorem zipIdx_bundled (bundle : Nat) (rings : List Tile) :
    (bundled bundle rings).zipIdx
      = (List.range ((rings.length + bundle - 1) / bundle)).map fun k =>
          (phase bundle rings k, k) := by
  apply List.ext_getElem
  · simp [bundled]
  · simp [bundled, phase]

end Hit

/-! ### The search -/

section Search

variable {mask : Tile}

theorem tables_rings (p : PixelId) : tables.ringTable.get p = ringsAround p :=
  Vector.getElem_ofFn p.isLt

theorem tables_phases (bundle : Fin maxBundle) (p : PixelId) :
    (tables.phaseTable.get bundle).get p = bundled (bundle.val + 1) (ringsAround p) := by
  change ((Vector.ofFn fun b : Fin maxBundle =>
    (Vector.ofFn ringsAround).map (bundled (b.val + 1)))[bundle.val])[p.val] = _
  simp

/-- The size of the bundles has no influence on the answer. -/
theorem around_eq_firstHit (mask : Tile) (bundle : Fin maxBundle) (p : PixelId) :
    around tables mask bundle p = (firstHit mask (ringsAround p)).getD p := by
  let rings := ringsAround p
  let size := bundle.val + 1
  have hend : rings.length ≤ (0 + (rings.length + size - 1) / size) * size := by
    have hpos : 0 < size := Nat.succ_pos bundle.val
    have hdiv := Nat.div_add_mod (rings.length + size - 1) size
    have hmod := Nat.mod_lt (rings.length + size - 1) hpos
    rw [Nat.zero_add, Nat.mul_comm]
    omega
  have hphases : (List.range' 0 _).findSome? (phaseHit mask size rings)
      = firstHit mask (rings.drop (0 * size)) := findSome?_phaseHit 0 _ hend
  rw [Nat.zero_mul, List.drop_zero] at hphases
  rw [around, tables_rings, tables_phases, zipIdx_bundled, List.findSome?_map,
    List.range_eq_range', ← hphases]
  rfl

/-- The pixel that the search answers with is the nearest one. -/
theorem around_isNearest (hmask : mask ≠ 0) (bundle : Fin maxBundle) (p : PixelId) :
    IsNearest mask p (around tables mask bundle p) := by
  rw [around_eq_firstHit]
  cases hhit : firstHit mask (ringsAround p) with
  | some q =>
      exact isNearest_of_firstHit (ringsAround_nearestFirst p) (fun r _ => exists_ring p r) hhit
  | none =>
      obtain ⟨t, ht, hlow⟩ := exists_ring p (Tile.lowest mask)
      have hmiss := firstHit_eq_none_iff.1 hhit t ht
      exact absurd hmiss (inter_ne_zero_iff.2 ⟨_, hlow, Tile.has_lowest hmask⟩)

/-- Every search of a mask that is not empty gives the same answer, whatever the size of the
bundles: for each position the one pixel of the mask that is nearest, the lowest of several, and for
a pixel of the mask that pixel itself. -/
theorem search_nearest (hmask : mask ≠ 0) :
    ∃ ids : Ids, search mask = .ok ids ∧ (∀ bundle, searchBundled mask bundle = .ok ids) ∧
      ∀ p, (∃ q, (ids.get p).toNat = q.val ∧ IsNearest mask p q ∧ ∀ r, IsNearest mask p r → r = q) ∧
        (Tile.has mask p = true → (ids.get p).toNat = p.val) := by
  have hsame : ∀ bundle p,
      around tables mask bundle p = around tables mask (clampBundle 1) p := fun bundle p =>
    (around_isNearest hmask _ p).unique (around_isNearest hmask bundle p)
  have hsearch : ∀ bundle, searchBundled mask bundle
      = .ok (Vector.ofFn fun p => (around tables mask (clampBundle 1) p).val.toUInt8) := by
    intro bundle
    rw [searchBundled, if_neg hmask]
    simp only [hsame (clampBundle bundle)]
  have hvalue : ∀ p : PixelId,
      ((Vector.ofFn fun p => (around tables mask (clampBundle 1) p).val.toUInt8).get p).toNat
        = (around tables mask (clampBundle 1) p).val := by
    intro p
    change ((Vector.ofFn fun p => (around tables mask (clampBundle 1) p).val.toUInt8)[p.val]).toNat
      = _
    rw [Vector.getElem_ofFn]
    exact UInt8.toNat_ofNat_of_lt' (Nat.lt_trans (Fin.isLt _) (by decide))
  refine ⟨_, hsearch _, hsearch, fun p => ⟨⟨_, hvalue p, around_isNearest hmask _ p, ?_⟩, ?_⟩⟩
  · exact fun r hr => (around_isNearest hmask _ p).unique hr
  · intro hp
    rw [hvalue, (isNearest_self hp).unique (around_isNearest hmask _ p)]

/-- Half-way between two pixels of a mask the lower one wins; bundles of no rings and of more rings
than there are give the same. -/
theorem search_nearest_of_tie :
    (0x41 : Tile) ≠ 0 ∧ ∃ ids : Ids, search 0x41 = .ok ids ∧ searchBundled 0x41 0 = .ok ids ∧
      searchBundled 0x41 1000 = .ok ids ∧ (ids.get 3).toNat = 0 ∧ (ids.get 60).toNat = 6 ∧
      (ids.get 6).toNat = 6 := by
  obtain ⟨ids, hsearch, hbundled, hids⟩ := search_nearest (show (0x41 : Tile) ≠ 0 by decide)
  have hvalue : ∀ p q, IsNearest 0x41 p q → (ids.get p).toNat = q.val := by
    intro p q hq
    obtain ⟨⟨r, hr, -, hunique⟩, -⟩ := hids p
    rw [hr, hunique q hq]
  exact ⟨by decide, ids, hsearch, hbundled 0, hbundled 1000, hvalue 3 0 (by decide +kernel),
    hvalue 60 6 (by decide +kernel), (hids 6).2 (by decide +kernel)⟩

end Search

end Nearest

end RenderFold
