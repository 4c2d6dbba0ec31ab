/-
Cells: what a layer holds for one pixel.

`Cell.absorb` is the rule of merging for a single pixel. A merge of blocks is this rule at every
pixel, with the pixels that were taken as report. On a cell that holds data exactly where it has
been written the rule is plain overwriting: the destination becomes the source wherever the source
holds a sample.
-/
import RenderFold.Proofs.Tile
import RenderFold.Layer.Block

namespace RenderFold

variable {V : Type}

/-- Value, sample count and activity of one pixel; the count is zero where none is kept. -/
structure Cell (V : Type) where
  value : V
  count : UInt32
  active : Bool

namespace Cell

def blank (value : V) : Cell V := ⟨value, 0, false⟩

/-- Whether a cell holds a sample: without counts activity alone decides. -/
def sampled (counted : Bool) (c : Cell V) : Bool := c.active && (!counted || c.count != 0)

variable [DecidableEq V]

/-- Whether merging takes the source cell: it holds a sample, and the destination does not hold the
same one already. -/
def takes (counted : Bool) (dst src : Cell V) : Bool :=
  src.sampled counted &&
    !(dst.value = src.value && if counted then dst.count = src.count else dst.active)

def absorb (counted : Bool) (dst src : Cell V) : Cell V :=
  if dst.takes counted src then ⟨src.value, src.count, true⟩ else dst

/-- A source cell that is cut off is not taken. -/
theorem takes_cut (counted : Bool) (dst : Cell V) (value : V) (count : UInt32)
    (active inside : Bool) :
    dst.takes counted ⟨value, count, active && inside⟩
      = (inside && dst.takes counted ⟨value, count, active⟩) := by
  cases inside <;> simp [takes, sampled]

/-- A cell that is active exactly if it holds a sample, and without count unless counts are kept. -/
def Settled (counted : Bool) (c : Cell V) : Prop :=
  c.active = c.sampled counted ∧ (c.active = false ∨ counted = false → c.count = 0)

omit [DecidableEq V] in
theorem settled_blank (counted : Bool) (value : V) : (blank value).Settled counted := by
  simp [Settled, blank, sampled]

omit [DecidableEq V] in
theorem settled_of_sampled {counted : Bool} {c : Cell V} (h : c.sampled counted = true)
    (hcount : counted = false → c.count = 0) : c.Settled counted := by
  have hactive : c.active = true := by
    rw [sampled, Bool.and_eq_true] at h
    exact h.1
  refine ⟨hactive.trans h.symm, ?_⟩
  rintro (hinactive | hcounted)
  · rw [hactive] at hinactive
    exact absurd hinactive (by decide)
  · exact hcount hcounted

/-- Merging into a settled cell overwrites it wherever the source holds a sample. -/
theorem absorb_eq_of_settled {counted : Bool} {dst src : Cell V} (hdst : dst.Settled counted)
    (hcount : counted = false → src.count = 0) :
    dst.absorb counted src = if src.sampled counted then src else dst := by
  obtain ⟨hactive, hzero⟩ := hdst
  obtain ⟨value, count, active⟩ := dst
  obtain ⟨srcValue, srcCount, srcActive⟩ := src
  simp only [sampled, absorb, takes] at hactive hzero hcount ⊢
  cases counted
  · simp only [Bool.not_false, Bool.true_or, Bool.and_true, or_true, forall_const] at hzero hcount ⊢
    subst hzero
    subst hcount
    cases srcActive
    · simp
    · by_cases hsame : value = srcValue ∧ active = true
      · simp [hsame]
      · by_cases hv : value = srcValue
        · have hoff : active = false := by
            cases active
            · rfl
            · exact absurd ⟨hv, rfl⟩ hsame
          simp [hv, hoff]
        · simp [hv]
  · cases srcActive
    · simp
    · by_cases hcountZero : srcCount = 0
      · simp [hcountZero]
      · by_cases hsame : value = srcValue ∧ count = srcCount
        · obtain ⟨rfl, rfl⟩ := hsame
          simp [hcountZero] at hactive hzero
          simp_all
        · by_cases hv : value = srcValue
          · have hc : count ≠ srcCount := fun hc => hsame ⟨hv, hc⟩
            simp [hcountZero, hv, hc]
          · simp [hcountZero, hv]

end Cell

/-! ### Blocks -/

variable [DecidableEq V]

omit [DecidableEq V] in
theorem Block.get_eq (b : Block V) (p : PixelId) (hp : p.val < 64) : b.get p = b[p.val] :=
  rfl

def Block.cell (b : Block V) (held : Tile) (p : PixelId) : Cell V :=
  ⟨b.get p, 0, Tile.has held p⟩

def CountedBlock.cell (b : CountedBlock V) (held : Tile) (p : PixelId) : Cell V :=
  ⟨b.values.get p, b.counts.get p, Tile.has held p⟩

theorem Block.absorb_view (dst src : Block V) (held mask : Tile) (p : PixelId) :
    ((Block.absorb dst held src mask).1.get p, Tile.has (Block.absorb dst held src mask).2 p)
      = if (dst.cell held p).takes false (src.cell mask p) then (src.get p, true)
        else (dst.get p, false) := by
  have hfold := foldl_view (takeFresh held src) (fun acc p => (acc.1.get p, Tile.has acc.2 p))
    (fun p seen => if Tile.has held p ∧ seen.1 = src.get p then seen else (src.get p, true))
    (fun acc q => by
      simp only [takeFresh, get_eq _ q q.isLt, Fin.getElem_fin]
      split <;> simp)
    (fun acc q r hr => by
      have hval : q.val ≠ r.val := fun hval => hr (Fin.ext hval.symm)
      rw [takeFresh]
      split <;> simp [get_eq _ r r.isLt, Ne.symm hr, hval])
    (Tile.ids_nodup mask) (dst, 0) p
  rw [absorb, hfold]
  simp only [Tile.mem_ids, Tile.has_zero, cell, Cell.takes, Cell.sampled,
    Block.get_eq _ p p.isLt]
  by_cases hmask : Tile.has mask p = true
  · by_cases hv : dst[p.val] = src[p.val]
    · by_cases hheld : Tile.has held p = true
      · simp [hmask, hv, hheld]
      · simp [hmask, hv, hheld]
    · simp [hmask, hv]
  · simp [hmask]

/-- The pixels taken are those at which the rule for cells takes the source. -/
theorem Block.has_absorb (dst src : Block V) (held mask : Tile) (p : PixelId) :
    Tile.has (Block.absorb dst held src mask).2 p
      = (dst.cell held p).takes false (src.cell mask p) := by
  have hview := congrArg Prod.snd (absorb_view dst src held mask p)
  cases htakes : (dst.cell held p).takes false (src.cell mask p) with
  | false => rwa [htakes] at hview
  | true => rwa [htakes] at hview

theorem Block.get_absorb (dst src : Block V) (held mask : Tile) (p : PixelId) :
    (Block.absorb dst held src mask).1.get p
      = if Tile.has (Block.absorb dst held src mask).2 p = true then src.get p else dst.get p := by
  have hview := congrArg Prod.fst (absorb_view dst src held mask p)
  rwa [apply_ite Prod.fst, ← has_absorb] at hview

theorem CountedBlock.absorb_view (dst src : CountedBlock V) (held mask : Tile) (p : PixelId) :
    ((dst.absorb src mask).1.values.get p, (dst.absorb src mask).1.counts.get p,
        Tile.has (dst.absorb src mask).2 p)
      = if (dst.cell held p).takes true (src.cell mask p)
        then (src.values.get p, src.counts.get p, true)
        else (dst.values.get p, dst.counts.get p, false) := by
  have hfold := foldl_view (takeSampled src)
    (fun acc p => (acc.1.values.get p, acc.1.counts.get p, Tile.has acc.2 p))
    (fun p seen => if src.counts.get p = 0 then seen
      else if seen.1 = src.values.get p ∧ seen.2.1 = src.counts.get p then seen
      else (src.values.get p, src.counts.get p, true))
    (fun acc q => by
      obtain ⟨⟨values, counts⟩, taken⟩ := acc
      simp only [takeSampled, Block.get_eq _ q q.isLt, Fin.getElem_fin]
      split
      · rfl
      · split <;> simp)
    (fun acc q r hr => by
      obtain ⟨⟨values, counts⟩, taken⟩ := acc
      have hval : q.val ≠ r.val := fun hval => hr (Fin.ext hval.symm)
      simp only [takeSampled]
      split
      · rfl
      · split <;> simp [Block.get_eq _ r r.isLt, Ne.symm hr, hval])
    (Tile.ids_nodup mask) (dst, 0) p
  rw [absorb, hfold]
  simp only [Tile.mem_ids, Tile.has_zero, cell, Cell.takes, Cell.sampled,
    Block.get_eq _ p p.isLt]
  by_cases hmask : Tile.has mask p = true
  · by_cases hzero : src.counts[p.val] = 0
    · simp [hmask, hzero]
    · by_cases hv : dst.values[p.val] = src.values[p.val]
      · by_cases hc : dst.counts[p.val] = src.counts[p.val]
        · simp [hmask, hzero, hv, hc]
        · simp [hmask, hzero, hv, hc]
      · simp [hmask, hzero, hv]
  · simp [hmask]

/-- The pixels taken are those at which the rule for cells takes the source; what the destination
holds has no influence. -/
theorem CountedBlock.has_absorb (dst src : CountedBlock V) (held mask : Tile) (p : PixelId) :
    Tile.has (dst.absorb src mask).2 p = (dst.cell held p).takes true (src.cell mask p) := by
  have hview := congrArg (fun seen => seen.2.2) (absorb_view dst src held mask p)
  cases htakes : (dst.cell held p).takes true (src.cell mask p) with
  | false => rwa [htakes] at hview
  | true => rwa [htakes] at hview

theorem CountedBlock.get_values_absorb (dst src : CountedBlock V) (mask : Tile) (p : PixelId) :
    (dst.absorb src mask).1.values.get p
      = if Tile.has (dst.absorb src mask).2 p = true then src.values.get p
        else dst.values.get p := by
  have hview := congrArg Prod.fst (absorb_view dst src 0 mask p)
  rwa [apply_ite Prod.fst, ← has_absorb] at hview

theorem CountedBlock.get_counts_absorb (dst src : CountedBlock V) (mask : Tile) (p : PixelId) :
    (dst.absorb src mask).1.counts.get p
      = if Tile.has (dst.absorb src mask).2 p = true then src.counts.get p
        else dst.counts.get p := by
  have hview := congrArg Prod.fst (congrArg Prod.snd (absorb_view dst src 0 mask p))
  rwa [apply_ite Prod.snd, apply_ite Prod.fst, ← has_absorb] at hview

end RenderFold
