/-
What a merge reads of its change set.

Two exchanges with one destination are followed through preparation and tasks, part by part:
`Frame.SameTarget` says that a part of the destination is the same in both, `Frame.SameUse` that the
change sets agree there on what is in use. Most of what a change set holds is gone after
preparation. The mask of a named output may survive it, but then its task overwrites every tile.
-/
import RenderFold.Proofs.Frame.Collect
import RenderFold.Proofs.Frame.Schedule

namespace RenderFold

namespace PixelMask

/-- A mask that is given a size and cleared forgets what it held. -/
theorem clear_resize (m : PixelMask) (w h : UInt32) : (m.resize w h).clear = blank w h := by
  have hsize : (m.resize w h).width = w ∧ (m.resize w h).height = h := by
    rw [resize]
    split
    · assumption
    · exact ⟨rfl, rfl⟩
  apply ext_has_tileD hsize.1 hsize.2
  intro i _
  rw [tileD_clear, tileD_blank]

end PixelMask

namespace ChangeSet

/-- Change sets that agree on their size and on all that is in use. -/
structure AgreesInUse (r s : ChangeSet) : Prop where
  sized : r.sized = s.sized
  width : r.width = s.width
  height : r.height = s.height
  beauty : r.beauty = s.beauty
  aux : ∀ k, r.aux? k = s.aux? k
  aovs : ∀ name, r.activeAov name = s.activeAov name

theorem activeAov_retain (s : ChangeSet) (keep : String → Bool → Bool) (name : String) :
    (s.retain keep).activeAov name = (s.activeAov name).filter fun c => keep name c.active := by
  rw [activeAov, activeAov, findAov_retain]
  cases s.findAov name with
  | none => rfl
  | some c =>
      cases hactive : c.active <;> cases hkeep : keep name c.active <;>
        simp_all [Option.filter_some, AovChange.deactivate]

end ChangeSet

namespace AovChange

/-- An entry that is given a size owns a mask, whatever it was before. -/
theorem init_eq (c : AovChange) (w h : UInt32) : ∃ m, c.init w h = ⟨.mask m, true⟩ := by
  obtain ⟨pixels, active⟩ := c
  cases pixels with
  | mask m => exact ⟨_, rfl⟩
  | reference target => exact ⟨_, rfl⟩

end AovChange

namespace Frame

def SameTarget : (part : FramePart) → PartState part → PartState part → Prop
  | .beauty, st, st' => st.1 = st'.1
  | .aux _, st, st' => st.1 = st'.1
  | .aov _, st, st' => st.1 = st'.1

/-- The change set has the same of a part in use. -/
def SameUse : (part : FramePart) → PartState part → PartState part → Prop
  | .beauty, st, st' => st.2 = st'.2
  | .aux _, st, st' => st.2.get? = st'.2.get?
  | .aov _, st, st' => st.2.filter (fun c => c.active) = st'.2.filter fun c => c.active

/-- Two tasks of a part have done the same; what they have put in the change set is the same if they
were not refused. -/
structure SameTask (part : FramePart) (t t' : Except MergeError Nat × PartState part) : Prop where
  answer : t.1 = t'.1
  target : SameTarget part t.2 t'.2
  use : ∀ n, t.1 = .ok n → SameUse part t.2 t'.2

theorem SameTask.refl {part : FramePart} (t : Except MergeError Nat × PartState part) :
    SameTask part t t := by
  cases part with
  | beauty => exact ⟨rfl, rfl, fun _ _ => rfl⟩
  | aux k => exact ⟨rfl, rfl, fun _ _ => rfl⟩
  | aov name => exact ⟨rfl, rfl, fun _ _ => rfl⟩

section Part

variable {src : Frame}

theorem prepareAt_beauty_eq {st st' : PartState .beauty} (hsame : SameTarget .beauty st st') :
    src.prepareAt .beauty st = src.prepareAt .beauty st' := by
  simp only [prepareAt, PixelMask.clear_resize, show st.1 = st'.1 from hsame]

theorem prepareAt_aux_eq {k : AuxKind} (hon : (src.aux.get k).isOn = true)
    {st st' : PartState (.aux k)} (hsame : SameTarget (.aux k) st st') :
    src.prepareAt (.aux k) st = src.prepareAt (.aux k) st' := by
  simp only [prepareAt, hon, if_true, PixelMask.clear_resize, show st.1 = st'.1 from hsame]

/-- Of a named output that is set up with pixels, no more than a mask is left of what the change set
held. -/
theorem prepareAt_aov_pixels {name : String} {a : Aov} {s : FormatLayer}
    (ha : src.activeAov name = some a) (hs : a.layer? = some s) (st : PartState (.aov name)) :
    ∃ m, src.prepareAt (.aov name) st
      = (some ((st.1.getD .new).setup s.format src.width src.height a.background a.closestFilter),
        some ⟨.mask m, true⟩) := by
  obtain ⟨m, hm⟩ := AovChange.init_eq ((st.2.map AovChange.deactivate).getD .new).activate src.width
    src.height
  refine ⟨m, ?_⟩
  simp only [prepareAt, ha, Aov.follow, Aov.followChange, Aov.layer?_eq_some_iff.1 hs, hm]

/-- A part that is not merged pixel by pixel keeps nothing in use of what the change set held. -/
theorem prepareAt_same {part : FramePart} (hmem : part ∉ src.parts) {st st' : PartState part}
    (hsame : SameTarget part st st') :
    SameTarget part (src.prepareAt part st) (src.prepareAt part st') ∧
      SameUse part (src.prepareAt part st) (src.prepareAt part st') := by
  cases part with
  | beauty => exact absurd src.beauty_mem_parts hmem
  | aux k =>
      rw [aux_mem_parts, Bool.not_eq_true, Option.isSome_eq_false_iff, Option.isNone_iff_eq_none,
        aux?_eq_none_iff] at hmem
      simp [prepareAt, hmem, SameTarget, SameUse, show st.1 = st'.1 from hsame, Switched.off,
        Switched.get?]
  | aov name =>
      have hdst : st.1 = st'.1 := hsame
      rcases src.activeAov_cases name with ha | ⟨a, target, ha, hs⟩ | ⟨a, s, ha, hs⟩
      · have hunused : ∀ c : Option AovChange,
            (c.map AovChange.deactivate).filter (fun c => c.active) = none := by
          intro c
          cases c <;> rfl
        simp [prepareAt, ha, SameTarget, SameUse, hdst, hunused]
      · simp [prepareAt, ha, SameTarget, SameUse, hdst, Aov.follow, Aov.followChange, hs,
          AovChange.initReference]
      · rw [aov_mem_parts, liveLayer_of_activeAov ha hs] at hmem
        exact absurd rfl hmem

/-- The task of a part overwrites what preparation has left of the change set. -/
theorem visitAt_same {part : FramePart} (hmem : part ∈ src.parts) {st st' : PartState part}
    (hsame : SameTarget part st st') :
    SameTask part (src.visitAt part st) (src.visitAt part st') := by
  rw [visitAt, visitAt]
  cases part with
  | beauty =>
      rw [prepareAt_beauty_eq hsame]
      exact .refl _
  | aux k =>
      obtain ⟨s, hs⟩ := Option.isSome_iff_exists.1 (aux_mem_parts.1 hmem)
      rw [prepareAt_aux_eq (congrArg Switched.isOn (aux?_eq_some_iff.1 hs)) hsame]
      exact .refl _
  | aov name =>
      obtain ⟨s, hlive⟩ := Option.isSome_iff_exists.1 (aov_mem_parts.1 hmem)
      obtain ⟨a, ha, hs⟩ := Option.bind_eq_some_iff.1 hlive
      obtain ⟨m, hm⟩ := prepareAt_aov_pixels ha hs st
      obtain ⟨m', hm'⟩ := prepareAt_aov_pixels ha hs st'
      rw [hm, hm', show st.1 = st'.1 from hsame]
      have hfind : (src.findAov name).bind Aov.layer? = some s := by
        rw [(activeAov_eq_some_iff.1 ha).1]
        exact hs
      obtain ⟨hanswer, htarget, huse⟩ := FormatLayer.outcome_forgets
        ((st'.1.getD .new).preparedLayer s.format src.width src.height a.background) s m m'
      simp only [taskAt, hfind, Option.bind_some, Aov.setup, Aov.layer?, AovChange.mask?,
        Option.map_some, Aov.withLayer, AovChange.withMask]
      refine ⟨hanswer, ?_, ?_⟩
      · simp only [SameTarget, htarget]
      · intro n hn
        simp only [SameUse, huse n hn]

/-- What a merge makes of a part: the task of a part that is merged pixel by pixel, and of any other
no more than its preparation. -/
def absorbedAt (src : Frame) (part : FramePart) (st : PartState part) :
    Except MergeError Nat × PartState part :=
  if part ∈ src.parts then src.visitAt part st else (.ok 0, src.prepareAt part st)

theorem absorbedAt_snd (part : FramePart) (st : PartState part) :
    (src.absorbedAt part st).2
      = if part ∈ src.parts then (src.visitAt part st).2 else src.prepareAt part st :=
  apply_ite Prod.snd _ _ _

theorem absorbedAt_same {part : FramePart} {st st' : PartState part}
    (hsame : SameTarget part st st') :
    SameTask part (src.absorbedAt part st) (src.absorbedAt part st') := by
  rw [absorbedAt, absorbedAt]
  by_cases hmem : part ∈ src.parts
  · rw [if_pos hmem, if_pos hmem]
    exact visitAt_same hmem hsame
  · rw [if_neg hmem, if_neg hmem]
    obtain ⟨htarget, huse⟩ := prepareAt_same hmem hsame
    exact ⟨rfl, htarget, fun _ _ => huse⟩

/-- Where no task is refused, every part has an answer. -/
theorem exists_absorbedAt_fst {sts : (part : FramePart) → PartState part} {tally : Tally}
    (hall : Tally.ofAnswers (src.parts.map fun part => (part, (src.visitAt part (sts part)).1))
      = .ok tally) (part : FramePart) : ∃ n, (src.absorbedAt part (sts part)).1 = .ok n := by
  rw [absorbedAt]
  by_cases hmem : part ∈ src.parts
  · rw [if_pos hmem]
    exact answers_ok_of_ofAnswers hall _ (List.mem_map_of_mem hmem)
  · rw [if_neg hmem]
    exact ⟨0, rfl⟩

end Part

section Whole

variable {src dst : Frame} {x y : Exchange}

theorem dst_eq_of_sameTarget (hheader : x.header = y.header)
    (htarget : ∀ part, SameTarget part (x.view part) (y.view part)) : x.dst = y.dst :=
  ext_get (congrArg ExchangeHeader.width hheader) (congrArg ExchangeHeader.height hheader)
    (htarget .beauty) (fun k => htarget (.aux k)) (fun name => htarget (.aov name))
    (congrArg ExchangeHeader.hasOutputs hheader)

theorem agreesInUse_of_sameUse (hheader : x.header = y.header)
    (huse : ∀ part, SameUse part (x.view part) (y.view part)) (keep : String → Bool → Bool) :
    (x.report.retain keep).AgreesInUse (y.report.retain keep) where
  sized := (congrArg ExchangeHeader.sized hheader :)
  width := (congrArg ExchangeHeader.reportWidth hheader :)
  height := (congrArg ExchangeHeader.reportHeight hheader :)
  beauty := huse .beauty
  aux k := huse (.aux k)
  aovs name := by
    have hactive : x.report.activeAov name = y.report.activeAov name := huse (.aov name)
    rw [ChangeSet.activeAov_retain, ChangeSet.activeAov_retain, hactive]

/-- What two merges from one destination have in common. -/
theorem absorb_forgets_changes (hcheck : dst.check src = .ok ()) (r s : ChangeSet)
    (recorder : Recorder) (coarse : Bool) :
    ∃ m n, dst.absorb src r recorder coarse = .ok m ∧ dst.absorb src s recorder coarse = .ok n ∧
      m.answer = n.answer ∧ m.dst = n.dst ∧ m.recorder = n.recorder ∧
      ∀ tally, m.answer = .ok tally → m.report.AgreesInUse n.report := by
  obtain ⟨x, hheader, hview, hdone⟩ :=
    absorbBy_eq hcheck (covers_of_perm (.refl src.parts)) r recorder coarse
  obtain ⟨y, hheader', hview', hdone'⟩ :=
    absorbBy_eq hcheck (covers_of_perm (.refl src.parts)) s recorder coarse
  rw [← absorb_eq_absorbBy] at hdone hdone'
  simp only [← absorbedAt_snd] at hview hview'
  have hsame : x.header = y.header := hheader.trans hheader'.symm
  have hpart : ∀ part, SameTask part (src.absorbedAt part (Exchange.view ⟨dst, r⟩ part))
      (src.absorbedAt part (Exchange.view ⟨dst, s⟩ part)) := by
    intro part
    apply absorbedAt_same
    cases part <;> rfl
  have hanswers : src.parts.map (fun part =>
        (part, (src.visitAt part (Exchange.view ⟨dst, s⟩ part)).1))
      = src.parts.map fun part => (part, (src.visitAt part (Exchange.view ⟨dst, r⟩ part)).1) := by
    apply List.map_congr_left
    intro part hmem
    have hanswer := (hpart part).answer
    rw [absorbedAt, absorbedAt, if_pos hmem, if_pos hmem] at hanswer
    rw [hanswer]
  have hdst : x.dst = y.dst := by
    apply dst_eq_of_sameTarget hsame
    intro part
    rw [hview, hview']
    exact (hpart part).target
  rw [hanswers] at hdone'
  refine ⟨_, _, hdone, hdone', ?_⟩
  rw [settle, settle]
  cases hall : Tally.ofAnswers (src.parts.map fun part =>
      (part, (src.visitAt part (Exchange.view ⟨dst, r⟩ part)).1)) with
  | error e => exact ⟨rfl, hdst, rfl, fun tally h => by cases h⟩
  | ok tally =>
      have huse : ∀ part, SameUse part (x.view part) (y.view part) := by
        intro part
        obtain ⟨n, hn⟩ := exists_absorbedAt_fst hall part
        rw [hview, hview']
        exact (hpart part).use n hn
      have hreport := agreesInUse_of_sameUse hsame huse fun name _ => src.hasActive name
      exact ⟨rfl, hdst, congrArg (fun m => (recorder.add m coarse).2) hreport.beauty,
        fun _ _ => hreport⟩

end Whole

end Frame

/-- What a merge answers and what it makes of the destination depends on nothing that the change set
held before, and if the merge is not refused, neither does what the change set says afterwards. -/
theorem Accumulator.merge_forgets_changes (a : Accumulator) (src dst : Frame) (r s : ChangeSet)
    (coarse : Bool) :
    ∃ m n, a.merge src dst r coarse = .ok m ∧ a.merge src dst s coarse = .ok n ∧
      m.answer = n.answer ∧ m.dst = n.dst ∧ m.accumulator = n.accumulator ∧
      ∀ tally, m.answer = .ok tally → m.report.AgreesInUse n.report := by
  cases hcheck : dst.check src with
  | error e =>
      exact ⟨_, _, Frame.merge_of_check_eq_error a r coarse hcheck,
        Frame.merge_of_check_eq_error a s coarse hcheck, rfl, rfl, rfl, nofun⟩
  | ok =>
      obtain ⟨m, n, hm, hn, hanswer, hdst, hrecorder, hreport⟩ :=
        Frame.absorb_forgets_changes hcheck r s a.recorder coarse
      exact ⟨_, _, bind_eq_ok.2 ⟨m, hm, rfl⟩, bind_eq_ok.2 ⟨n, hn, rfl⟩, hanswer, hdst,
        congrArg (Accumulator.mk a.options) hrecorder, hreport⟩

end RenderFold
