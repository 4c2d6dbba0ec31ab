/-
Tiles as sets of pixels.

`Tile.has` is the only view of a tile that later modules use: every operation has one membership
equation, two tiles with the same members are equal, and `Tile.ids` lists the members in ascending
order.
-/
import Mathlib.Algebra.Group.Nat.Defs
import RenderFold.Tile

namespace RenderFold

/-- A fold over distinct keys whose every step changes what is seen at its own key only. -/
theorem foldl_view {κ β : Type} {γ : κ → Type} [DecidableEq κ] (step : β → κ → β)
    (view : β → (k : κ) → γ k) (f : (k : κ) → γ k → γ k)
    (hself : ∀ b k, view (step b k) k = f k (view b k))
    (hother : ∀ b k j, j ≠ k → view (step b k) j = view b j) {keys : List κ}
    (hkeys : keys.Nodup) (b : β) (j : κ) :
    view (keys.foldl step b) j = if j ∈ keys then f j (view b j) else view b j := by
  induction keys generalizing b with
  | nil => simp
  | cons k rest ih =>
      obtain ⟨hk, hrest⟩ := List.nodup_cons.1 hkeys
      rw [List.foldl_cons, ih hrest]
      by_cases hjk : j = k
      · subst hjk
        simp [hk, hself]
      · simp [hjk, hother b k j hjk]

theorem PixelId.all_nodup : PixelId.all.Nodup := List.nodup_finRange 64

@[simp] theorem PixelId.mem_all (p : PixelId) : p ∈ PixelId.all := List.mem_finRange p

namespace Tile

theorem has_eq_testBit (t : Tile) (p : PixelId) : has t p = t.toNat.testBit p.val := by
  have hval : (UInt64.ofNat p.val).toNat % 64 = p.val := by
    rw [UInt64.toNat_ofNat']
    omega
  have hbits : ((t >>> UInt64.ofNat p.val) &&& 1).toNat = t.toNat >>> p.val &&& 1 := by
    rw [UInt64.toNat_and, UInt64.toNat_shiftRight, hval]
    rfl
  rw [has, Nat.testBit, Nat.and_comm 1, ← hbits, Bool.eq_iff_iff]
  simp [← UInt64.toNat_inj]

theorem testBit_toNat_of_le {n : Nat} (t : Tile) (hn : 64 ≤ n) : t.toNat.testBit n = false := by
  apply Nat.testBit_lt_two_pow
  exact Nat.lt_of_lt_of_le t.toNat_lt (Nat.pow_le_pow_right (by decide) hn)

/-- A tile is determined by its pixels. -/
theorem ext_has {s t : Tile} (h : ∀ p, has s p = has t p) : s = t := by
  apply UInt64.toNat_inj.1
  apply Nat.eq_of_testBit_eq
  intro n
  by_cases hn : n < 64
  · have hbit := h ⟨n, hn⟩
    rwa [has_eq_testBit, has_eq_testBit] at hbit
  · rw [testBit_toNat_of_le s (by omega), testBit_toNat_of_le t (by omega)]

@[simp] theorem has_zero (p : PixelId) : has 0 p = false := by
  simp [has_eq_testBit]

@[simp] theorem has_single (p q : PixelId) : has (single p) q = decide (p = q) := by
  have hval : (UInt64.ofNat p.val).toNat % 64 = p.val := by
    rw [UInt64.toNat_ofNat']
    omega
  have hnat : (single p).toNat = 2 ^ p.val := by
    rw [single, UInt64.toNat_shiftLeft, hval, UInt64.toNat_one, Nat.one_shiftLeft]
    exact Nat.mod_eq_of_lt (Nat.pow_lt_pow_right (by decide) p.isLt)
  rw [has_eq_testBit, hnat, Nat.testBit_two_pow]
  simp [Fin.ext_iff]

@[simp] theorem has_union (s t : Tile) (p : PixelId) :
    has (union s t) p = (has s p || has t p) := by
  simp [union, has_eq_testBit]

@[simp] theorem has_inter (s t : Tile) (p : PixelId) :
    has (inter s t) p = (has s p && has t p) := by
  simp [inter, has_eq_testBit]

theorem inter_eq_zero_iff {s t : Tile} :
    inter s t = 0 ↔ ∀ p, ¬(has s p = true ∧ has t p = true) := by
  constructor
  · rintro hnone p ⟨hs, ht⟩
    have hp := has_inter s t p
    rw [hnone, hs, ht, has_zero] at hp
    cases hp
  · intro h
    apply ext_has
    intro p
    rw [has_inter, has_zero, Bool.eq_false_iff, ne_eq, Bool.and_eq_true]
    exact h p

theorem has_foldr_union (tiles : List Tile) (p : PixelId) :
    has (tiles.foldr union 0) p = tiles.any fun t => has t p := by
  induction tiles with
  | nil => exact has_zero p
  | cons t rest ih => rw [List.foldr_cons, has_union, ih, List.any_cons]

/-- Disjoint tiles have as many pixels as their union. -/
theorem card_of_disjoint {s t u : Tile} (hdisjoint : inter s t = 0)
    (hunion : ∀ p, has u p = (has s p || has t p)) : card u = card s + card t := by
  have hnot := inter_eq_zero_iff.1 hdisjoint
  have hcount : ∀ ps : List PixelId, ps.countP (has u) = ps.countP (has s) + ps.countP (has t) := by
    intro ps
    induction ps with
    | nil => rfl
    | cons p rest ih =>
        simp only [List.countP_cons, ih, hunion p]
        have hp := hnot p
        cases hs : has s p <;> cases ht : has t p <;> simp_all <;> omega
  exact hcount PixelId.all

@[simp] theorem has_insert (t : Tile) (p q : PixelId) :
    has (insert t p) q = (has t q || decide (p = q)) := by
  rw [← has_single p q, insert]
  exact has_union t (single p) q

@[simp] theorem has_ofPred (f : PixelId → Bool) (p : PixelId) : has (ofPred f) p = f p := by
  have hfold := foldl_view (fun t p => if f p then insert t p else t) has
    (fun p held => held || f p)
    (fun t p => by by_cases hf : f p = true <;> simp [hf])
    (fun t p q hq => by by_cases hf : f p = true <;> simp [hf, Ne.symm hq])
    PixelId.all_nodup 0 p
  simpa [ofPred] using hfold

/-! ### The lowest pixel -/

/-- Every number but zero is a power of two times an odd number; the exponent is the position of
its lowest bit. -/
theorem exists_two_pow_mul_odd {n : Nat} (hn : 0 < n) :
    ∃ k q, n = 2 ^ k * (2 * q + 1) := by
  induction n using Nat.strongRecOn with
  | ind n ih =>
      rcases Nat.mod_two_eq_zero_or_one n with heven | hodd
      · obtain ⟨k, q, hkq⟩ := ih (n / 2) (by omega) (by omega)
        refine ⟨k + 1, q, ?_⟩
        rw [Nat.pow_succ', Nat.mul_assoc, ← hkq]
        omega
      · exact ⟨0, n / 2, by omega⟩

theorem testBit_two_pow_mul_odd (k q i : Nat) :
    (2 ^ k * (2 * q + 1)).testBit i
      = if i < k then false else if i = k then true else q.testBit (i - k - 1) := by
  rw [Nat.testBit_two_pow_mul]
  by_cases hlt : i < k
  · simp [hlt, Nat.not_le.2 hlt]
  by_cases heq : i = k
  · subst heq
    simp
  · have hsucc : i - k = i - k - 1 + 1 := by omega
    rw [hsucc, Nat.testBit_add_one]
    have hhalf : (2 * q + 1) / 2 = q := by omega
    simp [hlt, heq, hhalf, Nat.not_lt.1 hlt]

/-- Borrowing one turns the lowest bit off, the bits below it on, and leaves the rest. -/
theorem testBit_two_pow_mul_odd_pred (k q i : Nat) :
    (2 ^ k * (2 * q + 1) - 1).testBit i
      = if i < k then true else if i = k then false else q.testBit (i - k - 1) := by
  have hpos : 0 < 2 ^ k := Nat.two_pow_pos k
  have hpred : 2 ^ k * (2 * q + 1) - 1 = 2 ^ k * (2 * q) + (2 ^ k - 1) := by
    rw [Nat.mul_add]
    omega
  rw [hpred, Nat.testBit_two_pow_mul_add _ (by omega)]
  by_cases hlt : i < k
  · simp [hlt]
  by_cases heq : i = k
  · subst heq
    simp
  · have hsucc : i - k = i - k - 1 + 1 := by omega
    rw [hsucc, Nat.testBit_add_one]
    have hhalf : 2 * q / 2 = q := by omega
    simp [hlt, heq, hhalf]

theorem toNat_sub_one {t : Tile} (h : t ≠ 0) : (t - 1).toNat = t.toNat - 1 := by
  apply UInt64.toNat_sub_of_le
  rw [UInt64.le_iff_toNat_le]
  have hpos : t.toNat ≠ 0 := fun hz => h (UInt64.toNat_inj.1 hz)
  exact Nat.one_le_iff_ne_zero.2 hpos

section Lowest

variable {t : Tile} {k q : Nat} (hkq : t.toNat = 2 ^ k * (2 * q + 1))
include hkq

/-- The number of the lowest bit is a pixel number. -/
theorem lowBit_lt : k < 64 := by
  apply Classical.byContradiction
  intro hge
  have hself := testBit_two_pow_mul_odd k q k
  rw [← hkq, testBit_toNat_of_le t (by omega)] at hself
  simp at hself

theorem testBit_dropLowest (i : Nat) :
    (dropLowest t).toNat.testBit i = (t.toNat.testBit i && decide (i ≠ k)) := by
  have hne : t ≠ 0 := by
    rintro rfl
    have hpos : 0 < 2 ^ k * (2 * q + 1) := Nat.mul_pos (Nat.two_pow_pos k) (by omega)
    exact Nat.ne_of_lt hpos hkq
  rw [dropLowest, UInt64.toNat_and, Nat.testBit_and, toNat_sub_one hne, hkq,
    testBit_two_pow_mul_odd, testBit_two_pow_mul_odd_pred]
  by_cases hlt : i < k
  · simp [hlt]
  by_cases heq : i = k
  · simp [heq]
  · simp [hlt, heq]

theorem val_lowest : (lowest t).val = k := by
  have hlow : (t ^^^ dropLowest t).toNat = 2 ^ k := by
    apply Nat.eq_of_testBit_eq
    intro i
    rw [UInt64.toNat_xor, Nat.testBit_xor, testBit_dropLowest hkq, Nat.testBit_two_pow, hkq,
      testBit_two_pow_mul_odd]
    by_cases heq : i = k
    · simp [heq]
    · simp [heq, Ne.symm heq]
  have hlog : (t ^^^ dropLowest t).log2.toNat = k := by
    change (t ^^^ dropLowest t).toNat.log2 = k
    rw [hlow, Nat.log2_two_pow]
  rw [lowest, hlog]
  exact Nat.mod_eq_of_lt (lowBit_lt hkq)

end Lowest

/-- The lowest pixel is a pixel, none lies below it, and dropping it drops nothing else. -/
theorem lowest_pixel {t : Tile} (h : t ≠ 0) :
    has t (lowest t) = true ∧ (∀ p, has t p = true → lowest t ≤ p) ∧
      ∀ p, has (dropLowest t) p = (has t p && decide (p ≠ lowest t)) := by
  have hpos : 0 < t.toNat :=
    Nat.pos_of_ne_zero fun hz => h (UInt64.toNat_inj.1 hz)
  obtain ⟨k, q, hkq⟩ := exists_two_pow_mul_odd hpos
  have hval := val_lowest hkq
  refine ⟨?_, ?_, ?_⟩
  · rw [has_eq_testBit, hval, hkq, testBit_two_pow_mul_odd]
    simp
  · intro p hp
    rw [has_eq_testBit, hkq, testBit_two_pow_mul_odd] at hp
    rw [Fin.le_def, hval]
    apply Classical.byContradiction
    intro hlt
    simp [show p.val < k by omega] at hp
  · intro p
    rw [has_eq_testBit, has_eq_testBit, testBit_dropLowest hkq]
    simp [Fin.ext_iff, hval]

theorem has_lowest {t : Tile} (h : t ≠ 0) : has t (lowest t) = true := (lowest_pixel h).1

theorem lowest_le {t : Tile} (h : t ≠ 0) {p : PixelId} (hp : has t p = true) : lowest t ≤ p :=
  (lowest_pixel h).2.1 p hp

theorem has_dropLowest {t : Tile} (h : t ≠ 0) (p : PixelId) :
    has (dropLowest t) p = (has t p && decide (p ≠ lowest t)) := (lowest_pixel h).2.2 p

/-! ### Listing -/

@[simp] theorem mem_ids (t : Tile) (p : PixelId) : p ∈ ids t ↔ has t p = true := by
  induction t using ids.induct with
  | case1 => simp [ids]
  | case2 t h ih =>
      rw [ids, dif_neg h, List.mem_cons, ih, has_dropLowest h]
      by_cases heq : p = lowest t
      · simp [heq, has_lowest h]
      · simp [heq]

theorem ids_pairwise (t : Tile) : (ids t).Pairwise (· < ·) := by
  induction t using ids.induct with
  | case1 => simp [ids]
  | case2 t h ih =>
      rw [ids, dif_neg h]
      refine List.pairwise_cons.2 ⟨?_, ih⟩
      intro p hp
      rw [mem_ids, has_dropLowest h] at hp
      simp only [Bool.and_eq_true, decide_eq_true_eq] at hp
      exact Fin.lt_iff_le_and_ne.2 ⟨lowest_le h hp.1, Ne.symm hp.2⟩

theorem ids_nodup (t : Tile) : (ids t).Nodup :=
  (ids_pairwise t).imp fun hlt => Fin.ne_of_lt hlt

/-- The pixels are counted as they are listed. -/
theorem length_ids (t : Tile) : (ids t).length = card t := by
  have hsame : ∀ p, p ∈ ids t ↔ p ∈ PixelId.all.filter (has t) := by simp
  have hperm := (List.perm_ext_iff_of_nodup (ids_nodup t) (PixelId.all_nodup.filter _)).2 hsame
  rw [card, List.countP_eq_length_filter]
  exact hperm.length_eq

theorem ne_zero_iff {t : Tile} : t ≠ 0 ↔ ∃ p, has t p = true := by
  constructor
  · exact fun hne => ⟨lowest t, has_lowest hne⟩
  · rintro ⟨p, hp⟩ rfl
    simp at hp

/-! ### Corners -/

/-- One row of a corner, moved up to row `y`. -/
theorem has_line {cols y : Nat} (hcols : cols ≤ 8) (hy : y < 8) (p : PixelId) :
    has ((0xff : Tile) >>> UInt64.ofNat (8 - cols) <<< UInt64.ofNat (8 * y)) p
      = decide (p.column < cols ∧ p.row = y) := by
  have hdown : (UInt64.ofNat (8 - cols)).toNat % 64 = 8 - cols := by
    rw [UInt64.toNat_ofNat']
    omega
  have hup : (UInt64.ofNat (8 * y)).toNat % 64 = 8 * y := by
    rw [UInt64.toNat_ofNat']
    omega
  have hff : (0xff : Tile).toNat = 2 ^ 8 - 1 := rfl
  rw [has_eq_testBit, UInt64.toNat_shiftLeft, UInt64.toNat_shiftRight, hdown, hup, hff,
    Nat.testBit_mod_two_pow, Nat.testBit_shiftLeft, Nat.testBit_shiftRight,
    Nat.testBit_two_pow_sub_one, Bool.eq_iff_iff]
  simp only [Bool.and_eq_true, decide_eq_true_eq]
  rw [PixelId.column, PixelId.row]
  omega

theorem has_foldl_lines {cols : Nat} (hcols : cols ≤ 8) (p : PixelId) (n : Nat) (hn : n ≤ 8) :
    has ((List.range n).foldl (fun t y => t ||| (0xff : Tile) >>> UInt64.ofNat (8 - cols)
        <<< UInt64.ofNat (8 * y)) 0) p
      = decide (p.column < cols ∧ p.row < n) := by
  induction n with
  | zero => simp
  | succ n ih =>
      rw [List.range_succ, List.foldl_append, List.foldl_cons, List.foldl_nil]
      have hstep := has_union ((List.range n).foldl (fun t y => t ||| (0xff : Tile)
        >>> UInt64.ofNat (8 - cols) <<< UInt64.ofNat (8 * y)) 0)
        ((0xff : Tile) >>> UInt64.ofNat (8 - cols) <<< UInt64.ofNat (8 * n)) p
      rw [ih (by omega), has_line hcols (by omega)] at hstep
      rw [union] at hstep
      rw [hstep, Bool.eq_iff_iff]
      simp only [Bool.or_eq_true, decide_eq_true_eq]
      omega

@[simp] theorem has_corner (cols rows : Nat) (p : PixelId) :
    has (corner cols rows) p = decide (p.column < cols ∧ p.row < rows) := by
  rw [corner, has_foldl_lines (Nat.min_le_right cols 8) p _ (Nat.min_le_right rows 8),
    Bool.eq_iff_iff]
  simp only [decide_eq_true_eq]
  rw [PixelId.column, PixelId.row]
  omega

end Tile

end RenderFold
