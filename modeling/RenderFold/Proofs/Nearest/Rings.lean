/-
The rings around a pixel are its levels of distance.

Pixels come to the rings by their distances, so that each level is complete before the next one is
opened (`foldl_addPixel_eq_levels`, by induction on a bound on the distances).
-/
import RenderFold.Nearest
import RenderFold.Proofs.Tile

namespace RenderFold

namespace Nearest

/-- The pixels of a list that come with a given distance. -/
def level (l : List (Nat × PixelId)) (distance : Nat) : Tile :=
  (l.filter fun e => e.1 = distance).foldl (fun ring e => Tile.insert ring e.2) 0

/-- The levels below a bound that have pixels. -/
def levels (l : List (Nat × PixelId)) (bound : Nat) : List Tile :=
  ((List.range bound).map (level l)).filter (· ≠ 0)

theorem has_foldl_insert (l : List (Nat × PixelId)) (t : Tile) (q : PixelId) :
    Tile.has (l.foldl (fun ring e => Tile.insert ring e.2) t) q = true ↔
      Tile.has t q = true ∨ ∃ e ∈ l, e.2 = q := by
  induction l generalizing t with
  | nil => simp
  | cons e rest ih => simp [ih, or_assoc]

theorem has_level {l : List (Nat × PixelId)} {distance : Nat} {q : PixelId} :
    Tile.has (level l distance) q = true ↔ (distance, q) ∈ l := by
  simp [level, has_foldl_insert]

/-! ### Grouping -/

section Grouping

variable {l : List (Nat × PixelId)} {n : Nat}

/-- Pixels at the distance of the newest ring all go to that ring. -/
theorem foldl_addPixel_same (hsame : ∀ e ∈ l, e.1 = n) (ring : Tile) (rings : List Tile) :
    l.foldl addPixel (ring :: rings, some n)
      = (l.foldl (fun ring e => Tile.insert ring e.2) ring :: rings, some n) := by
  induction l generalizing ring with
  | nil => rfl
  | cons e rest ih =>
      obtain ⟨rfl, hrest⟩ := List.forall_mem_cons.1 hsame
      simpa [addPixel] using ih hrest (Tile.insert ring e.2)

/-- Pixels at another distance than the newest ring make one ring. -/
theorem foldl_addPixel_fresh (hl : l ≠ []) (hsame : ∀ e ∈ l, e.1 = n) (rings : List Tile)
    {last : Option Nat} (hlast : last ≠ some n) :
    l.foldl addPixel (rings, last)
      = (l.foldl (fun ring e => Tile.insert ring e.2) 0 :: rings, some n) := by
  cases l with
  | nil => exact absurd rfl hl
  | cons e rest =>
      obtain ⟨rfl, hrest⟩ := List.forall_mem_cons.1 hsame
      simpa [addPixel, hlast] using foldl_addPixel_same hrest (Tile.insert 0 e.2) rings

/-- Sorted pixels are the ones below the largest distance and then the ones at it. -/
theorem filter_append_filter (hsorted : l.Pairwise fun a b => a.1 ≤ b.1)
    (hbound : ∀ e ∈ l, e.1 < n + 1) :
    (l.filter fun e => e.1 < n) ++ (l.filter fun e => e.1 = n) = l := by
  induction l with
  | nil => rfl
  | cons e rest ih =>
      obtain ⟨hle, hrest⟩ := List.pairwise_cons.1 hsorted
      obtain ⟨he, hbelow⟩ := List.forall_mem_cons.1 hbound
      by_cases hlt : e.1 < n
      · have hne : e.1 ≠ n := Nat.ne_of_lt hlt
        simpa [hlt, hne] using ih hrest hbelow
      · have hall : ∀ f ∈ e :: rest, f.1 = n := by
          intro f hf
          have hf' := hbound f hf
          rcases List.mem_cons.1 hf with rfl | hf
          · omega
          · have := hle f hf
            omega
        have hnone : (e :: rest).filter (fun f => decide (f.1 < n)) = [] := by
          refine List.filter_eq_nil_iff.2 fun f hf => ?_
          simp [hall f hf]
        have hkept : (e :: rest).filter (fun f => decide (f.1 = n)) = e :: rest :=
          List.filter_eq_self.2 fun f hf => decide_eq_true (hall f hf)
        rw [hnone, hkept, List.nil_append]

theorem level_filter_lt {distance : Nat} (hdistance : distance < n) :
    level (l.filter fun e => e.1 < n) distance = level l distance := by
  refine Tile.ext_has fun q => Bool.eq_iff_iff.2 ?_
  simp [has_level, hdistance]

theorem levels_filter_lt : levels (l.filter fun e => e.1 < n) n = levels l n := by
  have hmap : (List.range n).map (level (l.filter fun e => e.1 < n))
      = (List.range n).map (level l) :=
    List.map_congr_left fun _ hd => level_filter_lt (List.mem_range.1 hd)
  rw [levels, hmap, levels]

theorem levels_succ :
    levels l (n + 1) = levels l n ++ if level l n = 0 then [] else [level l n] := by
  rw [levels, List.range_succ, List.map_append, List.filter_append]
  by_cases hzero : level l n = 0 <;> simp [levels, hzero]

/-- Sorted pixels are grouped into their levels. -/
theorem foldl_addPixel_eq_levels (hsorted : l.Pairwise fun a b => a.1 ≤ b.1)
    (hbound : ∀ e ∈ l, e.1 < n) :
    ∃ last : Option Nat, l.foldl addPixel ([], none) = ((levels l n).reverse, last) ∧
      ∀ d ∈ last, d < n := by
  induction n generalizing l with
  | zero =>
      obtain rfl : l = [] :=
        List.eq_nil_iff_forall_not_mem.2 fun e he => Nat.not_lt_zero _ (hbound e he)
      exact ⟨none, rfl, nofun⟩
  | succ n ih =>
      let below := l.filter fun e => e.1 < n
      let top := l.filter fun e => e.1 = n
      have hsplit : below ++ top = l := filter_append_filter hsorted hbound
      obtain ⟨last, hfold, hlast⟩ := ih (l := below) (hsorted.filter _) (by simp [below])
      have hbelow : l.foldl addPixel ([], none)
          = top.foldl addPixel ((levels l n).reverse, last) := by
        rw [← hsplit, List.foldl_append, hfold, levels_filter_lt, hsplit]
      have htop : level l n = top.foldl (fun ring e => Tile.insert ring e.2) 0 := rfl
      by_cases hempty : top = []
      · refine ⟨last, ?_, fun d hd => Nat.lt_succ_of_lt (hlast d hd)⟩
        rw [hbelow, levels_succ, htop, hempty]
        simp
      · have hne : last ≠ some n := fun h => Nat.lt_irrefl n (hlast n h)
        have hsame : ∀ e ∈ top, e.1 = n := by simp [top]
        have hfull : level l n ≠ 0 := by
          obtain ⟨e, he⟩ := List.exists_mem_of_ne_nil top hempty
          refine Tile.ne_zero_iff.2 ⟨e.2, has_level.2 ?_⟩
          rw [← hsame e he]
          exact (List.mem_filter.1 he).1
        refine ⟨some n, ?_, by simp⟩
        rw [hbelow, foldl_addPixel_fresh hempty hsame _ hne, levels_succ, if_neg hfull]
        simp [htop]

end Grouping

/-! ### The pixels of a tile -/

/-- Distances inside a tile are at most `7 * 7 + 7 * 7`. -/
def distanceBound : Nat := 99

theorem distance_lt (p q : PixelId) : p.distance q < distanceBound := by
  have hside : ∀ a b : Nat, a < 8 → b < 8 → (max a b - min a b) * (max a b - min a b) ≤ 7 * 7 := by
    intro a b ha hb
    apply Nat.mul_le_mul <;> omega
  have hcolumns := hside p.column q.column (by rw [PixelId.column]; omega)
    (by rw [PixelId.column]; omega)
  have hrows := hside p.row q.row (by rw [PixelId.row]; omega) (by rw [PixelId.row]; omega)
  rw [PixelId.distance, distanceBound]
  omega

/-- The pixels at a given distance. -/
def ring (p : PixelId) (distance : Nat) : Tile :=
  Tile.ofPred fun q => p.distance q = distance

theorem comesFirst_iff {a b : Nat × PixelId} :
    comesFirst a b = true ↔ a.1 < b.1 ∨ a.1 = b.1 ∧ a.2.val ≤ b.2.val := by
  simp only [comesFirst, Bool.or_eq_true, Bool.and_eq_true, decide_eq_true_eq, Fin.le_def]

theorem comesFirst_trans (a b c : Nat × PixelId) (hab : comesFirst a b = true)
    (hbc : comesFirst b c = true) : comesFirst a c = true := by
  rw [comesFirst_iff] at hab hbc ⊢
  omega

theorem comesFirst_total (a b : Nat × PixelId) : (comesFirst a b || comesFirst b a) = true := by
  rw [Bool.or_eq_true, comesFirst_iff, comesFirst_iff]
  omega

theorem mem_byDistance {p q : PixelId} {distance : Nat} :
    (distance, q) ∈ byDistance p ↔ p.distance q = distance := by
  rw [byDistance, (List.mergeSort_perm _ _).mem_iff]
  simp

theorem byDistance_sorted (p : PixelId) :
    (byDistance p).Pairwise fun a b => a.1 ≤ b.1 := by
  refine (List.pairwise_mergeSort comesFirst_trans comesFirst_total _).imp fun hle => ?_
  rcases comesFirst_iff.1 hle with hlt | ⟨heq, -⟩
  · exact Nat.le_of_lt hlt
  · exact Nat.le_of_eq heq

theorem level_byDistance (p : PixelId) : level (byDistance p) = ring p := by
  funext distance
  refine Tile.ext_has fun q => Bool.eq_iff_iff.2 ?_
  rw [has_level, mem_byDistance, ring, Tile.has_ofPred, decide_eq_true_eq]

/-- The rings around a pixel are the levels of distance that have pixels, nearest first. -/
theorem ringsAround_eq_levels (p : PixelId) :
    ringsAround p = ((List.range distanceBound).map (ring p)).filter (· ≠ 0) := by
  have hbound : ∀ e ∈ byDistance p, e.1 < distanceBound := by
    rintro ⟨distance, q⟩ hmem
    exact mem_byDistance.1 hmem ▸ distance_lt p q
  obtain ⟨last, hfold, -⟩ := foldl_addPixel_eq_levels (byDistance_sorted p) hbound
  rw [ringsAround, hfold, List.reverse_reverse, levels, level_byDistance]

end Nearest

end RenderFold
