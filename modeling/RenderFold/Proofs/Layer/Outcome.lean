/-
What a merge of layers leaves behind, refused or not.

`Layer.outcome` says it without hypotheses on the two layers: the first check that fails is the
answer, and if none fails, the merge is the one of two layers of one shape. In either case there is
no fault, and what the report held before is of no influence on answer and destination.
-/
import RenderFold.Proofs.Layer.Format

namespace RenderFold

namespace Layer

variable {V : Type} [Inhabited V] [DecidableEq V]

def outcome (dst src : Layer V) (report : PixelMask) : Absorbed (Layer V) :=
  match dst.check src with
  | .error e => ⟨.error e, dst, report⟩
  | .ok () => ⟨.ok (dst.changes src).card, dst.merged src, dst.changes src⟩

variable {dst src : Layer V}

omit [Inhabited V] [DecidableEq V] in
/-- Layers that pass the checks of a merge have one shape. -/
theorem exists_shape_of_check (hcheck : dst.check src = .ok ()) :
    ∃ w h counted, dst.HasShape w h counted ∧ src.HasShape w h counted :=
  have hdst : dst.HasShape dst.mask.width dst.mask.height dst.isCounted := sound_of_check hcheck
  ⟨_, _, _, hdst, (check_eq_ok_iff hdst).1 hcheck⟩

/-- The order in which a merge comes by the tiles is free. -/
theorem absorbInOrder_eq_outcome (dst src : Layer V) {tiles : List Nat}
    (htiles : tiles.Perm (List.range dst.mask.tileCount)) (report : PixelMask) :
    dst.absorbInOrder tiles src report = .ok (dst.outcome src report) := by
  cases hcheck : dst.check src with
  | error e => simp only [absorbInOrder, outcome, hcheck]
  | ok =>
      obtain ⟨w, h, counted, hdst, hsrc⟩ := exists_shape_of_check hcheck
      rw [PixelMask.tileCount, hdst.size_tiles] at htiles
      rw [absorbInOrder_eq_ok hdst hsrc htiles report, outcome, hcheck]

theorem absorb_eq_outcome (dst src : Layer V) (report : PixelMask) :
    dst.absorb src report = .ok (dst.outcome src report) :=
  dst.absorbInOrder_eq_outcome src (.refl _) report

theorem outcome_of_hasShape {w h : UInt32} {counted : Bool} (hdst : dst.HasShape w h counted)
    (hsrc : src.HasShape w h counted) (report : PixelMask) :
    dst.outcome src report = ⟨.ok (dst.changes src).card, dst.merged src, dst.changes src⟩ := by
  rw [outcome, (check_eq_ok_iff hdst).2 hsrc]

/-- What the report held before has no influence on answer and destination, and is overwritten by a
merge that is not refused. -/
theorem outcome_forgets (dst src : Layer V) (r s : PixelMask) :
    (dst.outcome src r).answer = (dst.outcome src s).answer ∧
      (dst.outcome src r).dst = (dst.outcome src s).dst ∧
      ∀ n, (dst.outcome src r).answer = .ok n →
        (dst.outcome src r).report = (dst.outcome src s).report := by
  rw [outcome, outcome]
  cases dst.check src with
  | error e => exact ⟨rfl, rfl, nofun⟩
  | ok => exact ⟨rfl, rfl, fun _ _ => rfl⟩

end Layer

namespace FormatLayer

def outcome (dst src : FormatLayer) (report : PixelMask) : Layer.Absorbed FormatLayer :=
  if h : src.format = dst.format then
    let done := dst.layer.outcome (h ▸ src.layer) report
    ⟨done.answer, ⟨dst.format, done.dst⟩, done.report⟩
  else ⟨.error (.unsupported (.formats dst.format src.format)), dst, report⟩

/-- The order in which a merge comes by the tiles is free. -/
theorem absorbInOrder_eq_outcome (dst src : FormatLayer) {tiles : List Nat}
    (htiles : tiles.Perm (List.range dst.mask.tileCount)) (report : PixelMask) :
    dst.absorbInOrder tiles src report = .ok (dst.outcome src report) := by
  rw [absorbInOrder, outcome]
  split
  · rw [Layer.absorbInOrder_eq_outcome _ _ htiles]
    rfl
  · rfl

theorem absorb_eq_outcome (dst src : FormatLayer) (report : PixelMask) :
    dst.absorb src report = .ok (dst.outcome src report) :=
  dst.absorbInOrder_eq_outcome src (.refl _) report

theorem outcome_of_hasShape {dst src : FormatLayer} {format : PixelFormat} {w h : UInt32}
    (hdst : dst.HasShape format w h) (hsrc : src.HasShape format w h) (report : PixelMask) :
    dst.outcome src report = ⟨.ok (dst.changes src).card, dst.merged src, dst.changes src⟩ :=
  Except.ok.inj ((dst.absorb_eq_outcome src report).symm.trans (absorb_eq_ok hdst hsrc report))

theorem outcome_forgets (dst src : FormatLayer) (r s : PixelMask) :
    (dst.outcome src r).answer = (dst.outcome src s).answer ∧
      (dst.outcome src r).dst = (dst.outcome src s).dst ∧
      ∀ n, (dst.outcome src r).answer = .ok n →
        (dst.outcome src r).report = (dst.outcome src s).report := by
  rw [outcome, outcome]
  split
  · rename_i hformat
    obtain ⟨hanswer, hdst, hreport⟩ := dst.layer.outcome_forgets (hformat ▸ src.layer) r s
    exact ⟨hanswer, congrArg (FormatLayer.mk dst.format) hdst, hreport⟩
  · exact ⟨rfl, rfl, nofun⟩

end FormatLayer

end RenderFold
