/-
Replicas that are kept up to date by change sets alone.

A consumer holds a copy of an accumulated frame. After each merge it switches the kinds of its copy
on and off as the change set says, and fetches the pixels that the change set lists. That is enough:
the copy stays equal to the frame, padding and the content of what is switched off included.
-/
import RenderFold.Proofs.Layer.Replay
import RenderFold.Proofs.Frame.Fold

namespace RenderFold

namespace Frame

def switchAux (report : ChangeSet) (copy : Frame) (k : AuxKind) : Frame :=
  if (report.aux? k).isSome then copy.enable k else copy.disable k

def replayAux (dst : Frame) (report : ChangeSet) (coords : List (UInt32 × UInt32)) (copy : Frame)
    (k : AuxKind) : Frame :=
  match report.aux? k, dst.aux? k, copy.aux? k with
  | some changed, some l, some held => copy.withAux k (held.replay l changed coords)
  | _, _, _ => copy

/-- What a consumer does after a merge: it goes through the coordinates `coords`, for beauty and for
every kind that is switched on. -/
def follow (copy dst : Frame) (report : ChangeSet) (coords : List (UInt32 × UInt32)) : Frame :=
  let copy := AuxKind.all.foldl (switchAux report) copy
  let copy := { copy with beauty := copy.beauty.replay dst.beauty report.beauty coords }
  AuxKind.all.foldl (replayAux dst report coords) copy

/-- A frame, the change set of the latest merge into it, and the copy of a consumer. The sources,
the accumulators and the order in which coordinates are visited are free. -/
inductive Replicated (w h : UInt32) : Frame → ChangeSet → Frame → Prop
  | start (report : ChangeSet) : Replicated w h (new w h) report (new w h)
  | step {src dst dst' copy : Frame} {a a' : Accumulator} {report report' : ChangeSet}
      {coarse : Bool} {tally : Tally} {coords : List (UInt32 × UInt32)} :
      Replicated w h dst report copy →
      a.merge src dst report coarse = .ok ⟨.ok tally, a', dst', report'⟩ →
      (∀ x y, x < w → y < h → (x, y) ∈ coords) →
      Replicated w h dst' report' (copy.follow dst' report' coords)

section Follow

variable {copy dst : Frame} {report : ChangeSet} {coords : List (UInt32 × UInt32)}

/-- What is seen of a frame by a consumer that handles one kind. -/
def kindView (f : Frame) (k : AuxKind) :
    Layer Rgba × UInt32 × UInt32 × Switched (Layer (Texel k.channels)) :=
  (f.beauty, f.width, f.height, f.aux.get k)

theorem kindView_switchAux (report : ChangeSet) (copy : Frame) (k : AuxKind) :
    (AuxKind.all.foldl (switchAux report) copy).kindView k
      = (copy.beauty, copy.width, copy.height,
        if (report.aux? k).isSome then enableLayer (copy.aux.get k) copy.width copy.height
        else (copy.aux.get k).off) := by
  have hview := foldl_view (switchAux report) kindView
    (fun k st => (st.1, st.2.1, st.2.2.1,
      if (report.aux? k).isSome then enableLayer st.2.2.2 st.2.1 st.2.2.1 else st.2.2.2.off))
    (fun f k => by
      rw [switchAux]
      split <;> simp [kindView, enable, disable])
    (fun f k j hj => by
      rw [switchAux]
      split <;> simp [kindView, enable, disable, PerKind.get_set_of_ne _ hj])
    (by decide : AuxKind.all.Nodup) copy k
  rw [if_pos (AuxKind.mem_all k)] at hview
  exact hview

theorem kindView_replayAux (dst : Frame) (report : ChangeSet)
    (coords : List (UInt32 × UInt32)) (copy : Frame) (k : AuxKind) :
    (AuxKind.all.foldl (replayAux dst report coords) copy).kindView k
      = (copy.beauty, copy.width, copy.height,
        match report.aux? k, dst.aux? k, copy.aux? k with
        | some changed, some l, some held => ⟨true, held.replay l changed coords⟩
        | _, _, _ => copy.aux.get k) := by
  have hview := foldl_view (replayAux dst report coords) kindView
    (fun k st => (st.1, st.2.1, st.2.2.1,
      match report.aux? k, dst.aux? k, st.2.2.2.get? with
      | some changed, some l, some held => ⟨true, held.replay l changed coords⟩
      | _, _, _ => st.2.2.2))
    (fun f k => by
      rw [replayAux]
      cases report.aux? k with
      | none => rfl
      | some changed =>
          cases dst.aux? k with
          | none => rfl
          | some l =>
              cases hheld : f.aux? k with
              | none =>
                  rw [aux?] at hheld
                  simp [kindView, hheld]
              | some held =>
                  have hget := aux?_eq_some_iff.1 hheld
                  simp [kindView, withAux, hget, Switched.get?])
    (fun f k j hj => by
      rw [replayAux]
      split
      · rw [withAux]
        split
        · simp [kindView, PerKind.get_set_of_ne _ hj]
        · rfl
      · rfl)
    (by decide : AuxKind.all.Nodup) copy k
  rw [if_pos (AuxKind.mem_all k)] at hview
  exact hview

/-- A consumer that held the destination of a merge holds its result afterwards. -/
theorem follow_of_merges {src : Frame} {x y : Exchange} (hm : src.Merges x y)
    (hjoins : x.dst.Joins src) {copy : Frame} (hcopy : ∀ k, copy.kindView k = x.dst.kindView k)
    {coords : List (UInt32 × UInt32)}
    (hcoords : ∀ c d, c < x.dst.width → d < x.dst.height → (c, d) ∈ coords) (k : AuxKind) :
    (copy.follow y.dst y.report coords).kindView k = y.dst.kindView k := by
  obtain ⟨hbeauty, hdims⟩ := Prod.mk.inj (hcopy k)
  obtain ⟨hwidth, hdims⟩ := Prod.mk.inj hdims
  obtain ⟨hheight, haux⟩ := Prod.mk.inj hdims
  have hswitched := kindView_switchAux y.report copy k
  obtain ⟨hbeauty', hdims⟩ := Prod.mk.inj hswitched
  obtain ⟨hwidth', hdims⟩ := Prod.mk.inj hdims
  obtain ⟨hheight', haux'⟩ := Prod.mk.inj hdims
  have hpixels : (copy.beauty.replay y.dst.beauty y.report.beauty coords) = y.dst.beauty := by
    rw [hbeauty, hm.beauty_eq.1, hm.beauty_eq.2]
    exact Layer.replay_merged (hjoins.fits .beauty) (hjoins.source .beauty) hcoords
  rw [follow, kindView_replayAux, kindView]
  simp only [hbeauty', hwidth', hheight', hpixels, hwidth, hheight, hm.width_eq, hm.height_eq]
  refine congrArg (y.dst.beauty, x.dst.width, x.dst.height, ·) ?_
  have hview := hm.aux_eq hjoins k
  cases hs : src.aux? k with
  | none =>
      rw [hs] at hview
      obtain ⟨hdst, hreport⟩ := Prod.mk.inj hview
      have hoff : y.report.aux? k = none := by
        simp [ChangeSet.aux?, hreport, Switched.get?, Switched.off]
      rw [hoff] at haux' ⊢
      rw [hdst, haux', haux]
      rfl
  | some s =>
      rw [hs] at hview
      obtain ⟨hdst, hreport⟩ := Prod.mk.inj hview
      have hchanged : y.report.aux? k = some ((x.dst.auxBase k).changes s) := by
        simp [ChangeSet.aux?, hreport, Switched.get?]
      have hmerged : y.dst.aux? k = some ((x.dst.auxBase k).merged s) := aux?_eq_some_iff.2 hdst
      -- switched on, the copy holds what the merge has started from
      have hheld : (AuxKind.all.foldl (switchAux y.report) copy).aux? k
          = some (x.dst.auxBase k) := by
        rw [aux?_eq_some_iff, haux', hchanged, haux, hwidth, hheight,
          ← auxBase_eq hjoins.sound hjoins.fits k]
        rfl
      have hreplay := Layer.replay_merged (auxBase_hasShape hjoins.fits k)
        (hjoins.source (.aux k) s hs) hcoords
      rw [aux?] at hheld
      simp only [hdst, hchanged, hmerged]
      simp only [aux?, hheld, hreplay]

/-- A replica agrees with its frame, padding included, on beauty and on every kind that is switched
on, and the same kinds are switched on. -/
theorem replica_eq {w h : UInt32} {dst copy : Frame} {report : ChangeSet}
    (hrun : Replicated w h dst report copy) :
    copy.beauty = dst.beauty ∧ ∀ k, copy.aux? k = dst.aux? k := by
  have hall : (∀ k, copy.kindView k = dst.kindView k) ∧ dst.width = w ∧ dst.height = h ∧
      dst.Sound ∧ dst.Fits w h := by
    induction hrun with
    | start report => exact ⟨fun _ => rfl, rfl, rfl, new_sound w h, new_fits w h⟩
    | step _ hmerge hcoords ih =>
        obtain ⟨hsame, rfl, rfl, hsound, -⟩ := ih
        obtain ⟨hjoins, hm⟩ := Accumulator.merges_of_merge hsound hmerge
        exact ⟨follow_of_merges hm hjoins hsame hcoords, hm.width_eq, hm.height_eq,
          hm.sound hjoins, hm.fits hjoins⟩
  refine ⟨congrArg Prod.fst (hall.1 .pixelInfo), ?_⟩
  intro k
  have haux : copy.aux.get k = dst.aux.get k := congrArg (fun st => st.2.2.2) (hall.1 k)
  rw [aux?, aux?, haux]

/-- A source that fits can be merged, and the consumer can follow. -/
theorem Replicated.exists_step {w h : UInt32} {src : Frame} {srcs : List Frame}
    (hrun : Replicated w h dst report copy) (hfold : FoldOf w h srcs dst) (hwidth : src.width = w)
    (hheight : src.height = h) (hsrc : src.Fits w h)
    (hcoords : ∀ x y, x < w → y < h → (x, y) ∈ coords) :
    ∃ dst' report' copy', Replicated w h dst' report' copy' ∧ FoldOf w h (srcs ++ [src]) dst' := by
  obtain ⟨rfl, rfl, hsound, hfits⟩ := hfold.fits
  obtain ⟨_, _, dst', report', hmerge⟩ := Accumulator.exists_merge_of_joins
    ⟨hsound, hfits, hwidth, hheight, hsrc⟩ ⟨default, .new⟩ report false
  exact ⟨dst', report', _, hrun.step hmerge hcoords, hfold.snoc hmerge⟩

def emberFrame : Frame := coldFrame.edit (.aux .heatMap (.setPixel 0 1 #v[4] 2))

theorem emberFrame_fits : emberFrame.Fits 2 2 :=
  (validate_eq_ok_iff (((Reached.new 2 2).edit _).edit _).sound).1 rfl

def squareCoords : List (UInt32 × UInt32) := [(0, 0), (0, 1), (1, 0), (1, 1)]

theorem mem_squareCoords (x y : UInt32) (hx : x < 2) (hy : y < 2) : (x, y) ∈ squareCoords := by
  have hbelow : ∀ c : UInt32, c < 2 → c = 0 ∨ c = 1 := by
    intro c hc
    rw [UInt32.lt_iff_toNat_lt] at hc
    rw [← UInt32.toNat_inj, ← UInt32.toNat_inj]
    change c.toNat < 2 at hc
    change c.toNat = 0 ∨ c.toNat = 1
    omega
  rcases hbelow x hx with rfl | rfl <;> rcases hbelow y hy with rfl | rfl <;> decide

/-- The heat map is in use, then not, then in use again: the copy has lost the old sample of the
heat map as the frame has, and both still hold the old sample of beauty. -/
theorem replica_eq_over_gap :
    ∃ dst report copy, Replicated 2 2 dst report copy ∧
      FoldOf 2 2 [warmFrame, new 2 2, emberFrame] dst ∧
      copy.beauty = dst.beauty ∧ (∀ k, copy.aux? k = dst.aux? k) ∧
      copy.beauty.pixel? 1 1 = some (#v[1, 2, 3, 4], 5) ∧
      ∃ l, copy.aux? .heatMap = some l ∧ l.pixel? 0 1 = some (#v[4], 2) ∧
        l.pixel? 1 1 = some (#v[0], 0) := by
  obtain ⟨_, _, _, hrun, hfold⟩ := (Replicated.start .new).exists_step
    (FoldOf.nil (w := 2) (h := 2)) rfl rfl warmFrame_fits mem_squareCoords
  obtain ⟨_, _, _, hrun, hfold⟩ := hrun.exists_step hfold rfl rfl (new_fits 2 2) mem_squareCoords
  obtain ⟨dst, report, copy, hrun, hfold⟩ :=
    hrun.exists_step hfold rfl rfl emberFrame_fits mem_squareCoords
  have hlast : FoldOf 2 2 [warmFrame, new 2 2, emberFrame] dst := hfold
  obtain ⟨hbeauty, haux⟩ := replica_eq hrun
  obtain ⟨hon, hbase⟩ := hlast.aux .heatMap
  obtain ⟨l, hl⟩ := Option.isSome_iff_exists.1 (hon.trans (by decide +kernel))
  rw [auxBase, hl] at hbase
  have hpixel := (hlast.beauty.holdsLast 1 1 (by decide) (by decide)).1
  have hnew := (hbase.holdsLast 0 1 (by decide) (by decide)).1
  have hold := (hbase.holdsLast 1 1 (by decide) (by decide)).1
  have hkept : (([warmFrame, new 2 2, emberFrame].map Frame.beauty).filterMap
      fun s => s.sample? true 1 1).getLast? = some (#v[1, 2, 3, 4], 5) := by decide +kernel
  have hheat : (trailingAux .heatMap [warmFrame, new 2 2, emberFrame] : List (Layer (Texel 1)))
      = (emberFrame.aux? .heatMap).toList := rfl
  refine ⟨dst, report, copy, hrun, hlast, hbeauty, haux, ?_, l, (haux .heatMap).trans hl, ?_, ?_⟩
  · rw [hbeauty, hpixel, hkept]
    rfl
  · refine hnew.trans ?_
    rw [hheat]
    rfl
  · refine hold.trans ?_
    rw [hheat]
    rfl

end Follow

end Frame

end RenderFold
