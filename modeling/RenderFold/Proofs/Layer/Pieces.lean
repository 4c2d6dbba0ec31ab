/-
Updates that arrive in pieces.

A piece is a source layer under a mask of its own (`Layer.masked`). What a merge takes is what the
mask lists of the places where the source has something new for the destination (`Layer.newsAt`),
and after the merge it is no news any more (`newsAt_merged`). So every place is reported by the
first of the pieces that list it, and by that one only.
-/
import Mathlib.Algebra.BigOperators.Group.List.Basic
import Mathlib.Algebra.GroupWithZero.Nat
import RenderFold.Proofs.Layer.Delta
import RenderFold.Proofs.Layer.Outcome

namespace RenderFold

namespace PixelMask

def Disjoint (a b : PixelMask) : Prop := ∀ t, Tile.inter (a.tileD t) (b.tileD t) = 0

/-- A mask is, tile by tile, the union of masks of its size. -/
structure UnionOf (m : PixelMask) (masks : List PixelMask) : Prop where
  size_eq : ∀ a ∈ masks, a.size = m.size
  tileD_eq : ∀ t < m.tileCount, m.tileD t = (masks.map fun a => a.tileD t).foldr Tile.union 0

theorem disjoint_iff {a b : PixelMask} :
    a.Disjoint b ↔ ∀ i : Nat × PixelId,
      ¬(Tile.has (a.tileD i.1) i.2 = true ∧ Tile.has (b.tileD i.1) i.2 = true) := by
  simp only [Disjoint, Tile.inter_eq_zero_iff, Prod.forall]

section UnionOf

variable {m : PixelMask} {masks : List PixelMask}

theorem UnionOf.tileCount_eq (hm : m.UnionOf masks) {a : PixelMask} (ha : a ∈ masks) :
    a.tileCount = m.tileCount := by
  obtain ⟨hw, hh⟩ := ImageSize.mk.inj (hm.size_eq a ha)
  rw [tileCount, tileCount, a.size_tiles, m.size_tiles, hw, hh]

theorem UnionOf.has_iff (hm : m.UnionOf masks) (i : Nat × PixelId) :
    Tile.has (m.tileD i.1) i.2 = true ↔ ∃ a ∈ masks, Tile.has (a.tileD i.1) i.2 = true := by
  by_cases hi : i.1 < m.tileCount
  · rw [hm.tileD_eq i.1 hi, Tile.has_foldr_union, List.any_map, List.any_eq_true]
    rfl
  · -- past the last tile there is nothing on either side
    have hnone : ∀ a ∈ masks, a.tileD i.1 = 0 := fun a ha =>
      tileD_of_le ((hm.tileCount_eq ha).trans_le (Nat.not_lt.1 hi))
    rw [tileD_of_le (Nat.not_lt.1 hi), Tile.has_zero]
    constructor
    · nofun
    · rintro ⟨a, ha, hhas⟩
      rw [hnone a ha, Tile.has_zero] at hhas
      cases hhas

theorem unionOf_of_has (hsize : ∀ a ∈ masks, a.size = m.size)
    (hhas : ∀ i : Nat × PixelId, i.1 < m.tileCount →
      (Tile.has (m.tileD i.1) i.2 = true ↔ ∃ a ∈ masks, Tile.has (a.tileD i.1) i.2 = true)) :
    m.UnionOf masks := by
  refine ⟨hsize, fun t ht => Tile.ext_has fun p => ?_⟩
  rw [Bool.eq_iff_iff, hhas (t, p) ht, Tile.has_foldr_union, List.any_map, List.any_eq_true]
  rfl

def cover (width height : UInt32) (masks : List PixelMask) : PixelMask :=
  .ofPlaces width height fun i => masks.any fun a => Tile.has (a.tileD i.1) i.2

theorem cover_unionOf {width height : UInt32} (hsize : ∀ a ∈ masks, a.size = ⟨width, height⟩) :
    (cover width height masks).UnionOf masks := by
  refine unionOf_of_has hsize fun i hi => ?_
  rw [tileCount, size_tiles] at hi
  rw [show Tile.has ((cover width height masks).tileD i.1) i.2 = _ from has_tileD_ofPlaces _ hi,
    List.any_eq_true]

/-- The order of the masks is free. -/
theorem UnionOf.perm (hm : m.UnionOf masks) {masks' : List PixelMask} (hperm : masks.Perm masks') :
    m.UnionOf masks' := by
  refine unionOf_of_has (fun a ha => hm.size_eq a (hperm.mem_iff.2 ha)) fun i _ => ?_
  rw [hm.has_iff]
  simp only [hperm.mem_iff]

/-- A union of a mask with a union of others. -/
theorem UnionOf.cons {a rest : PixelMask} (hm : m.UnionOf [a, rest]) (hrest : rest.UnionOf masks) :
    m.UnionOf (a :: masks) := by
  have hsize : rest.size = m.size := hm.size_eq rest (by simp)
  refine unionOf_of_has ?_ fun i _ => ?_
  · intro b hb
    rcases List.mem_cons.1 hb with rfl | hb
    · exact hm.size_eq b (by simp)
    · exact (hrest.size_eq b hb).trans hsize
  · rw [hm.has_iff]
    simp only [List.mem_cons, List.not_mem_nil, or_false, exists_eq_or_imp, exists_eq_left,
      hrest.has_iff]

/-- A union of masks is the union of the first with a union of the others. -/
theorem UnionOf.exists_rest {a : PixelMask} (hm : m.UnionOf (a :: masks)) :
    ∃ rest : PixelMask, rest.size = m.size ∧ rest.UnionOf masks ∧ m.UnionOf [a, rest] := by
  have hrest : (cover m.width m.height masks).UnionOf masks :=
    cover_unionOf fun b hb => hm.size_eq b (List.mem_cons_of_mem a hb)
  refine ⟨cover m.width m.height masks, rfl, hrest, unionOf_of_has ?_ fun i _ => ?_⟩
  · intro b hb
    rcases List.mem_pair.1 hb with rfl | rfl
    · exact hm.size_eq b List.mem_cons_self
    · rfl
  · rw [hm.has_iff]
    simp only [List.mem_cons, List.not_mem_nil, or_false, exists_eq_or_imp, exists_eq_left,
      hrest.has_iff]

/-- A mask is disjoint from a union if it is disjoint from each part of it. -/
theorem UnionOf.disjoint_iff (hm : m.UnionOf masks) {a : PixelMask} :
    a.Disjoint m ↔ ∀ b ∈ masks, a.Disjoint b := by
  simp only [PixelMask.disjoint_iff, hm.has_iff]
  constructor
  · rintro h b hb i ⟨ha, hhas⟩
    exact h i ⟨ha, b, hb, hhas⟩
  · rintro h i ⟨ha, b, hb, hhas⟩
    exact h b hb i ⟨ha, hhas⟩

theorem card_eq_sum (m : PixelMask) :
    m.card = ((List.range m.tileCount).map fun t => Tile.card (m.tileD t)).sum := by
  rw [card_eq_foldr, List.sum_eq_foldr, List.foldr_map]

theorem card_of_disjoint {a b : PixelMask} (hm : m.UnionOf [a, b]) (hdisjoint : a.Disjoint b) :
    m.card = a.card + b.card := by
  have ha : a.tileCount = m.tileCount := hm.tileCount_eq (by simp)
  have hb : b.tileCount = m.tileCount := hm.tileCount_eq (by simp)
  rw [card_eq_sum, card_eq_sum, card_eq_sum, ha, hb, ← List.sum_map_add]
  congr 1
  apply List.map_congr_left
  intro t _
  apply Tile.card_of_disjoint (hdisjoint t)
  intro p
  rw [Bool.eq_iff_iff, hm.has_iff (t, p)]
  simp

/-- A union of disjoint masks has as many pixels as all of them together. -/
theorem UnionOf.card_eq (hm : m.UnionOf masks) (hdisjoint : masks.Pairwise PixelMask.Disjoint) :
    m.card = (masks.map card).sum := by
  induction masks generalizing m with
  | nil =>
      have hzero : ∀ t ∈ List.range m.tileCount, Tile.card (m.tileD t) = 0 := by
        intro t ht
        rw [hm.tileD_eq t (List.mem_range.1 ht)]
        exact show Tile.card 0 = 0 by decide
      rw [card_eq_sum, List.map_congr_left hzero]
      simp
  | cons a rest ih =>
      obtain ⟨hfirst, hrest⟩ := List.pairwise_cons.1 hdisjoint
      obtain ⟨others, _, hothers, hpair⟩ := hm.exists_rest
      rw [card_of_disjoint hpair (hothers.disjoint_iff.2 hfirst), ih hothers hrest, List.map_cons,
        List.sum_cons]

end UnionOf

end PixelMask

namespace Layer

variable {V : Type}

def masked (l : Layer V) (m : PixelMask) : Layer V := { l with mask := m }

/-- A part of an update: the pixels to merge, and the report that is handed over to be overwritten.
-/
structure Piece where
  mask : PixelMask
  report : PixelMask

/-- Merge the pieces of an update one after another. Returns what each merge has left behind, and
the destination. -/
def absorbPieces [DecidableEq V] (src : Layer V) :
    List Piece → Layer V → Except Fault (List (Absorbed (Layer V)) × Layer V)
  | [], dst => .ok ([], dst)
  | piece :: rest, dst => do
      let done ← dst.absorb (src.masked piece.mask) piece.report
      let (later, last) ← absorbPieces src rest done.dst
      return (done :: later, last)

/-- The merges of the pieces of an update have reported what the merge of all of it reports, each
pixel once. -/
structure Absorbed.SplitInto (whole : Absorbed (Layer V)) (steps : List (Absorbed (Layer V))) :
    Prop where
  disjoint : (steps.map Absorbed.report).Pairwise PixelMask.Disjoint
  union : whole.report.UnionOf (steps.map Absorbed.report)
  totals : ∃ totals : List Nat, steps.map Absorbed.answer = totals.map Except.ok ∧
    whole.answer = .ok totals.sum

section Pieces

variable [Inhabited V] [DecidableEq V] {dst src : Layer V} {w h : UInt32} {counted : Bool}

omit [Inhabited V] [DecidableEq V] in
theorem masked_hasShape (hl : src.HasShape w h counted) {m : PixelMask} (hm : m.size = ⟨w, h⟩) :
    (src.masked m).HasShape w h counted := by
  obtain ⟨hw, hh⟩ := ImageSize.mk.inj hm
  have hgrid : m.grid = src.mask.grid := by
    rw [PixelMask.grid, PixelMask.grid, hw, hh, hl.width_eq, hl.height_eq]
  refine ⟨hw, hh, hl.isCounted_eq, ?_⟩
  have hsized := hl.wellSized
  rw [WellSized, ← hgrid] at hsized
  exact hsized

/-- Whether a source, where its mask lists a place, has something new for the destination there. -/
def newsAt (dst src : Layer V) (i : Nat × PixelId) : Bool :=
  dst.grid.interior i &&
    (dst.cell i).takes dst.isCounted ⟨(src.cell i).value, (src.cell i).count, true⟩

theorem changesAt_masked (dst src : Layer V) (m : PixelMask) (i : Nat × PixelId) :
    dst.changesAt (src.masked m) i = (Tile.has (m.tileD i.1) i.2 && dst.newsAt src i) := by
  have hcut := Cell.takes_cut dst.isCounted (dst.cell i) (src.cell i).value (src.cell i).count true
    (Tile.has (m.tileD i.1) i.2)
  rw [Bool.true_and] at hcut
  rw [newsAt, Bool.and_left_comm, ← hcut]
  rfl

/-- What has been merged is no news any more. -/
theorem newsAt_merged (hdst : dst.HasShape w h counted) (hsrc : src.HasShape w h counted)
    {m : PixelMask} (hm : m.size = ⟨w, h⟩) {i : Nat × PixelId}
    (hi : i.1 < (TileGrid.ofSize w h).tileCount) :
    (dst.merged (src.masked m)).newsAt src i
      = (dst.newsAt src i && !Tile.has (m.tileD i.1) i.2) := by
  have hmasked := masked_hasShape hsrc hm
  have hmerged : (dst.merged (src.masked m)).HasShape w h counted := merged_hasShape hdst
  have hgrid : (dst.merged (src.masked m)).grid = dst.grid :=
    hmerged.grid_eq.trans hdst.grid_eq.symm
  have hcounted : (dst.merged (src.masked m)).isCounted = dst.isCounted :=
    hmerged.isCounted_eq.trans hdst.isCounted_eq.symm
  rw [newsAt, hgrid, hcounted, cell_merged hdst hmasked hi, mergedCell, changesAt_masked]
  cases hnews : dst.newsAt src i with
  | false =>
      simpa [newsAt] using hnews
  | true =>
      cases hhas : Tile.has (m.tileD i.1) i.2 with
      | false => simpa [newsAt] using hnews
      | true =>
          -- the place now holds the source's cell, which the rule does not take again
          have htaken : (Cell.mk (src.cell i).value (src.cell i).count true).takes dst.isCounted
              ⟨(src.cell i).value, (src.cell i).count, true⟩ = false := by
            cases dst.isCounted <;> simp [Cell.takes]
          simp only [Bool.and_self, if_true, Bool.not_true, Bool.and_false]
          exact (congrArg (dst.grid.interior i && ·) htaken).trans (Bool.and_false _)

theorem mergedCell_masked (dst src : Layer V) (m : PixelMask) (i : Nat × PixelId) :
    dst.mergedCell (src.masked m) i
      = if Tile.has (m.tileD i.1) i.2 && dst.newsAt src i then
          ⟨(src.cell i).value, (src.cell i).count, true⟩
        else dst.cell i := by
  rw [mergedCell, changesAt_masked]
  rfl

section Two

variable {a b m : PixelMask}

/-- Merging under one mask and then under another is merging under their union. -/
theorem merged_masked (hdst : dst.HasShape w h counted) (hsrc : src.HasShape w h counted)
    (hm : m.size = ⟨w, h⟩) (hunion : m.UnionOf [a, b]) :
    (dst.merged (src.masked a)).merged (src.masked b) = dst.merged (src.masked m) := by
  have ha : a.size = ⟨w, h⟩ := (hunion.size_eq a (by simp)).trans hm
  have hb : b.size = ⟨w, h⟩ := (hunion.size_eq b (by simp)).trans hm
  have hmerged : (dst.merged (src.masked a)).HasShape w h counted := merged_hasShape hdst
  apply ext_cell (merged_hasShape hmerged) (merged_hasShape hdst)
  intro i hi
  have hhas : Tile.has (m.tileD i.1) i.2
      = (Tile.has (a.tileD i.1) i.2 || Tile.has (b.tileD i.1) i.2) := by
    rw [Bool.eq_iff_iff, hunion.has_iff]
    simp
  rw [cell_merged hmerged (masked_hasShape hsrc hb) hi,
    cell_merged hdst (masked_hasShape hsrc hm) hi, mergedCell_masked, mergedCell_masked,
    newsAt_merged hdst hsrc ha hi, cell_merged hdst (masked_hasShape hsrc ha) hi,
    mergedCell_masked, hhas]
  cases dst.newsAt src i with
  | false => simp
  | true =>
      -- either the first merge has taken the place, or it has left it as it was
      cases Tile.has (a.tileD i.1) i.2 with
      | true => simp
      | false => simp

/-- What is reported under a union of two masks is reported under the first, or after it under the
second, and not both times. -/
theorem changes_masked (hdst : dst.HasShape w h counted) (hsrc : src.HasShape w h counted)
    (hm : m.size = ⟨w, h⟩) (hunion : m.UnionOf [a, b]) :
    (dst.changes (src.masked a)).Disjoint
        ((dst.merged (src.masked a)).changes (src.masked b)) ∧
      (dst.changes (src.masked m)).UnionOf
        [dst.changes (src.masked a), (dst.merged (src.masked a)).changes (src.masked b)] := by
  have ha : a.size = ⟨w, h⟩ := (hunion.size_eq a (by simp)).trans hm
  have hmerged : (dst.merged (src.masked a)).HasShape w h counted := merged_hasShape hdst
  have hfirst : ∀ (m : PixelMask) (i : Nat × PixelId), i.1 < (TileGrid.ofSize w h).tileCount →
      Tile.has ((dst.changes (src.masked m)).tileD i.1) i.2
        = (Tile.has (m.tileD i.1) i.2 && dst.newsAt src i) :=
    fun m i hi => (has_changes hdst hi).trans (changesAt_masked dst src m i)
  have hsecond : ∀ i : Nat × PixelId, i.1 < (TileGrid.ofSize w h).tileCount →
      Tile.has (((dst.merged (src.masked a)).changes (src.masked b)).tileD i.1) i.2
        = (Tile.has (b.tileD i.1) i.2 && (dst.newsAt src i && !Tile.has (a.tileD i.1) i.2)) := by
    intro i hi
    rw [has_changes hmerged hi, changesAt_masked, newsAt_merged hdst hsrc ha hi]
  constructor
  · rw [PixelMask.disjoint_iff]
    rintro i ⟨hone, htwo⟩
    by_cases hi : i.1 < (TileGrid.ofSize w h).tileCount
    · rw [hfirst a i hi] at hone
      rw [hsecond i hi] at htwo
      simp_all
    · rw [PixelMask.tileD_of_le (by rw [tileCount_changes hdst]; exact Nat.not_lt.1 hi),
        Tile.has_zero] at hone
      cases hone
  · apply PixelMask.unionOf_of_has
    · intro c hc
      rw [changes_size hdst]
      rcases List.mem_pair.1 hc with rfl | rfl
      · exact changes_size hdst _
      · exact changes_size hmerged _
    · intro i hi
      rw [tileCount_changes hdst] at hi
      have hhas : Tile.has (m.tileD i.1) i.2 = true ↔
          Tile.has (a.tileD i.1) i.2 = true ∨ Tile.has (b.tileD i.1) i.2 = true := by
        rw [hunion.has_iff]
        simp
      simp only [List.mem_cons, List.not_mem_nil, or_false, exists_eq_or_imp, exists_eq_left,
        hfirst m i hi, hfirst a i hi, hsecond i hi, Bool.and_eq_true, hhas]
      cases Tile.has (a.tileD i.1) i.2 <;> simp

end Two

/-- Merging under the union of no masks changes and reports nothing. -/
theorem masked_blank (hdst : dst.HasShape w h counted) (hsrc : src.HasShape w h counted)
    {m : PixelMask} (hm : m.size = ⟨w, h⟩) (hunion : m.UnionOf []) :
    dst.merged (src.masked m) = dst ∧ (dst.changes (src.masked m)).UnionOf [] := by
  have hnot : ∀ i, dst.changesAt (src.masked m) i = false := by
    intro i
    have hhas : ¬ Tile.has (m.tileD i.1) i.2 = true := by
      rw [hunion.has_iff]
      simp
    rw [changesAt_masked, Bool.eq_false_iff.2 hhas, Bool.false_and]
  constructor
  · apply ext_cell (merged_hasShape hdst) hdst
    intro i hi
    rw [cell_merged hdst (masked_hasShape hsrc hm) hi, mergedCell, hnot]
    rfl
  · apply PixelMask.unionOf_of_has (by simp)
    intro i hi
    rw [tileCount_changes hdst] at hi
    rw [has_changes hdst hi, hnot]
    simp

/-- The pieces of an update, one after another: what they leave behind is what the merge under the
union of their masks leaves behind, and their reports make up its report. -/
theorem absorbPieces_eq (hsrc : src.HasShape w h counted) {pieces : List Piece} {m : PixelMask}
    (hm : m.size = ⟨w, h⟩) (hunion : m.UnionOf (pieces.map Piece.mask))
    (hdst : dst.HasShape w h counted) :
    ∃ steps, absorbPieces src pieces dst = .ok (steps, dst.merged (src.masked m)) ∧
      steps.length = pieces.length ∧
      steps.map Absorbed.answer = ((steps.map Absorbed.report).map PixelMask.card).map Except.ok ∧
      (steps.map Absorbed.report).Pairwise PixelMask.Disjoint ∧
      (dst.changes (src.masked m)).UnionOf (steps.map Absorbed.report) := by
  induction pieces generalizing dst m with
  | nil =>
      obtain ⟨hsame, hnone⟩ := masked_blank hdst hsrc hm hunion
      exact ⟨[], by rw [hsame]; rfl, rfl, rfl, .nil, hnone⟩
  | cons piece rest ih =>
      obtain ⟨others, hsize, hothers, hpair⟩ := hunion.exists_rest
      have hfirst : piece.mask.size = ⟨w, h⟩ := (hpair.size_eq _ (by simp)).trans hm
      have hmerged : (dst.merged (src.masked piece.mask)).HasShape w h counted :=
        merged_hasShape hdst
      obtain ⟨hdisjoint, hreports⟩ := changes_masked hdst hsrc hm hpair
      obtain ⟨steps, hsteps, hlength, hanswers, hpairwise, hlater⟩ :=
        ih (hsize.trans hm) hothers hmerged
      refine ⟨⟨.ok (dst.changes (src.masked piece.mask)).card, dst.merged (src.masked piece.mask),
        dst.changes (src.masked piece.mask)⟩ :: steps, ?_, congrArg (· + 1) hlength, ?_, ?_, ?_⟩
      · rw [absorbPieces, absorb_eq_ok hdst (masked_hasShape hsrc hfirst)]
        simp only [bind, Except.bind, hsteps, merged_masked hdst hsrc hm hpair]
        rfl
      · simp only [List.map_cons, hanswers]
      · exact .cons (hlater.disjoint_iff.1 hdisjoint) hpairwise
      · exact hreports.cons hlater

end Pieces

section Update

variable [Inhabited V] [DecidableEq V] {dst src : Layer V} {pieces order : List Piece}

/-- An update may arrive in pieces that overlap or repeat, and in any order: it leaves behind what
the merge of all of it leaves behind, and every change is reported once. -/
theorem absorb_pieces (hcheck : dst.check src = .ok ())
    (hunion : src.mask.UnionOf (pieces.map Piece.mask)) (horder : order.Perm pieces)
    (report : PixelMask) :
    ∃ whole steps, dst.absorb src report = .ok whole ∧
      absorbPieces src order dst = .ok (steps, whole.dst) ∧ steps.length = order.length ∧
      whole.SplitInto steps := by
  obtain ⟨w, h, counted, hdst, hsrc⟩ := exists_shape_of_check hcheck
  have hsize : src.mask.size = ⟨w, h⟩ := by
    rw [PixelMask.size, hsrc.width_eq, hsrc.height_eq]
  have hordered : src.mask.UnionOf (order.map Piece.mask) := hunion.perm (horder.map _).symm
  obtain ⟨steps, hsteps, hlength, hanswers, hdisjoint, hreports⟩ :=
    absorbPieces_eq hsrc hsize hordered hdst
  refine ⟨_, steps, absorb_eq_ok hdst hsrc report, hsteps, hlength, hdisjoint, hreports, _,
    hanswers, ?_⟩
  exact congrArg Except.ok (hreports.card_eq hdisjoint)

/-- Pieces that overlap, with one of them twice, and reports of other sizes. -/
def overlappingPieces : List Piece :=
  [⟨(PixelMask.blank 9 1).putTile 0 0x0f, .blank 3 3⟩,
    ⟨raggedSource.mask, (PixelMask.blank 9 1).fill Tile.full⟩,
    ⟨(PixelMask.blank 9 1).putTile 0 0x0f, .empty⟩]

theorem absorb_pieces_of_overlapping :
    signedZero.check raggedSource = .ok () ∧
      raggedSource.mask.UnionOf (overlappingPieces.map Piece.mask) ∧
      overlappingPieces.reverse.Perm overlappingPieces ∧
      ∃ whole steps, signedZero.absorb raggedSource .empty = .ok whole ∧
        absorbPieces raggedSource overlappingPieces.reverse signedZero = .ok (steps, whole.dst) ∧
        steps.length = 3 ∧ whole.SplitInto steps := by
  have hunion : raggedSource.mask.UnionOf (overlappingPieces.map Piece.mask) :=
    ⟨by decide +kernel, by decide +kernel⟩
  exact ⟨signedZero_check, hunion, List.reverse_perm _,
    absorb_pieces signedZero_check hunion (List.reverse_perm _) .empty⟩

end Update

end Layer

end RenderFold
