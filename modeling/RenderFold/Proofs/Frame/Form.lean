/-
The form that a merge gives to a destination and to its change set.

`Frame.Conforms` says what the two have in common with the source after a merge: which kinds are
switched on, which named outputs are active, and what these are. `Tally.Counts` says that the answer
of the merge counts the pixels of the change set. Nothing is asked of what the change set was
before.
-/
import RenderFold.Proofs.Frame.Fold

namespace RenderFold

namespace ChangeSet

def activeNames (s : ChangeSet) : List String :=
  (s.aovs.entries.filter fun e => e.2.active).map (·.1)

/-- The mask of a named output whose entry is active and no reference. -/
def liveMask (s : ChangeSet) (name : String) : Option PixelMask :=
  ((s.findAov name).filter fun c => c.active).bind AovChange.mask?

/-- The changed pixels of a part that is in use and owns a mask. -/
def mask? (s : ChangeSet) : FramePart → Option PixelMask
  | .beauty => some s.beauty
  | .aux k => s.aux? k
  | .aov name => s.liveMask name

theorem hasOutputs_iff (s : ChangeSet) :
    s.hasOutputs = true ↔ ∃ name, (s.findAov name).any (fun c => c.active) = true := by
  rw [hasOutputs, NameTable.any_entries_iff s.aovs fun c => c.active]
  simp only [findAov, Option.any_eq_true]

end ChangeSet

namespace Tally

def noted? (t : Tally) : FramePart → Option Nat
  | .beauty => some t.beauty
  | .aux k => some (t.aux.get k)
  | .aov name => t.aovs.get? name

theorem noted?_note_self (t : Tally) (part : FramePart) (n : Nat) :
    (t.note part n).noted? part = some n := by
  cases part with
  | beauty => rfl
  | aux k => simp [note, noted?]
  | aov name => simp [note, noted?, NameTable.get?_put]

theorem noted?_note_of_ne (t : Tally) {part other : FramePart} (hne : other ≠ part) (n : Nat) :
    (t.note part n).noted? other = t.noted? other := by
  cases part with
  | beauty =>
      cases other with
      | beauty => exact absurd rfl hne
      | aux j => rfl
      | aov m => rfl
  | aux k =>
      cases other with
      | beauty => rfl
      | aux j =>
          have hjk : j ≠ k := fun heq => hne (congrArg FramePart.aux heq)
          simp [note, noted?, PerKind.get_set_of_ne _ hjk]
      | aov m => rfl
  | aov name =>
      cases other with
      | beauty => rfl
      | aux j => rfl
      | aov m =>
          have hmn : m ≠ name := fun heq => hne (congrArg FramePart.aov heq)
          simp [note, noted?, NameTable.get?_put, hmn]

/-- A tally has the numbers of pixels of a change set: zero for the kinds that are switched off, and
an entry for just those named outputs that are active with a mask. -/
structure Counts (t : Tally) (report : ChangeSet) : Prop where
  beauty : t.beauty = report.beauty.card
  aux : ∀ k, t.aux.get k = ((report.aux? k).map PixelMask.card).getD 0
  aovs : ∀ name, t.aovs.get? name = (report.liveMask name).map PixelMask.card

/-- Change sets with as many pixels in every part have one tally. -/
theorem Counts.unique {t u : Tally} {r s : ChangeSet} (ht : t.Counts r) (hu : u.Counts s)
    (hmasks : ∀ part, (r.mask? part).map PixelMask.card = (s.mask? part).map PixelMask.card) :
    t = u := by
  have hbeauty : t.beauty = u.beauty := by
    rw [ht.beauty, hu.beauty]
    exact Option.some.inj (hmasks .beauty)
  have haux : t.aux = u.aux := by
    apply PerKind.ext_get
    intro k
    rw [ht.aux, hu.aux]
    exact congrArg (Option.getD · 0) (hmasks (.aux k))
  have haovs : t.aovs = u.aovs := by
    apply NameTable.ext_get?
    intro name
    rw [ht.aovs, hu.aovs]
    exact hmasks (.aov name)
  cases t
  cases u
  simp_all

end Tally

namespace Frame

/-- Destination and change set `y` have the form of the source; `x` is what they were before. An
output with pixels has them in the layout and size of the source's pixels, and with its settings; an
output that is not active in the source keeps all it had, and is inactive. -/
structure Conforms (src : Frame) (x y : Exchange) : Prop where
  dst_size : y.dst.size = src.size
  report_size : ImageSize.mk y.report.width y.report.height = src.size
  aux_isSome : ∀ k, (y.dst.aux? k).isSome = (src.aux? k).isSome ∧
    (y.report.aux? k).isSome = (src.aux? k).isSome
  active_names : y.dst.activeAovNames = src.activeAovNames ∧
    y.report.activeNames = src.activeAovNames
  aov_reference : ∀ name a target, src.activeAov name = some a →
    a.storage = .reference target →
      (∃ b, y.dst.activeAov name = some b ∧ b.storage = .reference target) ∧
        y.report.findAov name = some ⟨.reference target, true⟩
  aov_pixels : ∀ name a s, src.activeAov name = some a → a.storage = .pixels s →
    (∃ l, y.dst.activeAov name = some ⟨.pixels l, true, a.background, a.closestFilter⟩ ∧
      l.HasShape s.format s.mask.width s.mask.height) ∧
        ∃ m, y.report.findAov name = some ⟨.mask m, true⟩ ∧ m.size = src.size
  aov_other : ∀ name, src.activeAov name = none →
    y.dst.findAov name = (x.dst.findAov name).map Aov.deactivate ∧
      y.report.findAov name = (x.report.findAov name).map AovChange.deactivate
  hasOutputs_iff : (y.dst.hasOutputs = true ↔ ∃ name, src.hasActive name = true) ∧
    (y.report.hasOutputs = true ↔ ∃ name, src.hasActive name = true)
  validate : y.dst.validate = .ok ()

section Merges

variable {src : Frame} {x y : Exchange}

/-! ### The named outputs of the change set -/

theorem Merges.findChange_pixels (hm : src.Merges x y) (hjoins : x.dst.Joins src)
    {name : String} {a : Aov} {s : FormatLayer} (ha : src.activeAov name = some a)
    (hs : a.layer? = some s) :
    y.report.findAov name
      = some ⟨.mask ((x.dst.aovBase name s.format a.background).changes s), true⟩ :=
  congrArg Prod.snd (hm.aov_pixels hjoins ha hs)

theorem Merges.findChange_reference (hm : src.Merges x y) {name : String} {a : Aov}
    (ha : src.activeAov name = some a) {target : Intrinsic}
    (hs : a.storage = .reference target) :
    y.report.findAov name = some ⟨.reference target, true⟩ :=
  congrArg Prod.snd (hm.aov_reference ha hs)

theorem Merges.findChange_inactive (hm : src.Merges x y) {name : String}
    (hnone : src.activeAov name = none) :
    y.report.findAov name = (x.report.findAov name).map AovChange.deactivate :=
  congrArg Prod.snd (hm.aov_inactive hnone)

/-- The outputs that are active after a merge are the ones of the source. -/
theorem Merges.any_active (hm : src.Merges x y) (hjoins : x.dst.Joins src) (name : String) :
    (y.dst.findAov name).any (fun b => b.active) = src.hasActive name ∧
      (y.report.findAov name).any (fun c => c.active) = src.hasActive name := by
  rw [hasActive_eq_isSome]
  rcases src.activeAov_cases name with ha | ⟨a, target, ha, hs⟩ | ⟨a, s, ha, hs⟩
  · rw [hm.findAov_inactive ha, hm.findChange_inactive ha, ha]
    constructor
    · cases x.dst.findAov name <;> rfl
    · cases x.report.findAov name <;> rfl
  · rw [hm.findAov_reference ha hs, hm.findChange_reference ha hs, ha]
    exact ⟨rfl, rfl⟩
  · rw [hm.findAov_pixels hjoins ha hs, hm.findChange_pixels hjoins ha hs, ha]
    exact ⟨rfl, rfl⟩

/-! ### The tally -/

/-- The parts that own a mask afterwards are those that were merged pixel by pixel. -/
theorem Merges.mask?_eq (hm : src.Merges x y) (hjoins : x.dst.Joins src) (part : FramePart) :
    y.report.mask? part
      = if part ∈ src.parts then
          some (src.changedAt part (src.prepareAt part (x.view part)))
        else none := by
  cases part with
  | beauty =>
      rw [if_pos (beauty_mem_parts src)]
      exact congrArg some (congrArg Prod.snd (hm.view_eq .beauty))
  | aux k =>
      simp only [aux_mem_parts, ChangeSet.mask?, (hm.aux?_eq hjoins k).2]
      cases hs : src.aux? k with
      | none => rfl
      | some s =>
          have hon : (src.aux.get k).isOn = true := congrArg Switched.isOn (aux?_eq_some_iff.1 hs)
          simp only [changedAt, hs, prepareAt, hon, if_true, Option.isSome_some, Option.map_some,
            hjoins.width_eq, hjoins.height_eq, Exchange.view,
            auxBase_eq hjoins.sound hjoins.fits k]
  | aov name =>
      simp only [aov_mem_parts, ChangeSet.mask?, ChangeSet.liveMask]
      rcases src.activeAov_cases name with ha | ⟨a, target, ha, hs⟩ | ⟨a, s, ha, hs⟩
      · rw [hm.findChange_inactive ha, liveLayer, ha]
        cases x.report.findAov name <;> rfl
      · rw [hm.findChange_reference ha hs]
        simp [liveLayer, ha, Aov.layer?, hs, AovChange.mask?]
      · have hbase := aovBase_eq hjoins.sound hjoins.fits name s.format a.background
        rw [hm.findChange_pixels hjoins ha hs, ← hbase]
        simp only [changedAt, liveLayer_of_activeAov ha hs, prepareAt, ha, Aov.follow,
          Aov.layer?_eq_some_iff.1 hs, Option.isSome_some, if_true, hjoins.width_eq,
          hjoins.height_eq]
        rfl

/-- The tally notes the pixels of every mask of the change set. -/
theorem Merges.noted?_mergeTally (hm : src.Merges x y) (hjoins : x.dst.Joins src)
    (part : FramePart) :
    (src.mergeTally x).noted? part
      = ((y.report.mask? part).map PixelMask.card).or (Tally.zero.noted? part) := by
  have hview := foldl_view
    (fun (t : Tally) part =>
      t.note part (src.changedAt part (src.prepareAt part (x.view part))).card)
    (fun t part => t.noted? part)
    (fun part _ => some (src.changedAt part (src.prepareAt part (x.view part))).card)
    (fun t part => t.noted?_note_self part _)
    (fun t part other hne => t.noted?_note_of_ne hne _)
    src.parts_nodup .zero part
  rw [mergeTally, hview, hm.mask?_eq hjoins]
  split
  · rfl
  · rfl

theorem Merges.counts (hm : src.Merges x y) (hjoins : x.dst.Joins src) :
    (src.mergeTally x).Counts y.report := by
  have hnoted := hm.noted?_mergeTally hjoins
  constructor
  · exact Option.some.inj (hnoted .beauty)
  · intro k
    have hzero : Tally.zero.noted? (.aux k) = some 0 := by simp [Tally.zero, Tally.noted?]
    have hk := hnoted (.aux k)
    rw [hzero, Option.or_some] at hk
    exact Option.some.inj hk
  · intro name
    exact (hnoted (.aov name)).trans (Option.or_none ..)

/-! ### The form -/

theorem Merges.conforms (hm : src.Merges x y) (hjoins : x.dst.Joins src) : src.Conforms x y := by
  have hactive := hm.any_active hjoins
  constructor
  · rw [size, size, hm.width_eq, hm.height_eq, hjoins.width_eq, hjoins.height_eq]
  · rw [size, hm.reportWidth_eq, hm.reportHeight_eq, hjoins.width_eq, hjoins.height_eq]
  · intro k
    rw [(hm.aux?_eq hjoins k).1, (hm.aux?_eq hjoins k).2, Option.isSome_map, Option.isSome_map]
    exact ⟨rfl, rfl⟩
  · exact ⟨NameTable.filter_names_congr fun name => (hactive name).1,
      NameTable.filter_names_congr fun name => (hactive name).2⟩
  · intro name a target ha hs
    exact ⟨⟨_, activeAov_eq_some_iff.2 ⟨hm.findAov_reference ha hs, rfl⟩, rfl⟩,
      hm.findChange_reference ha hs⟩
  · intro name a s ha hs
    have hlayer := Aov.layer?_eq_some_iff.2 hs
    have hsource := hjoins.source_layer ha hlayer
    refine ⟨⟨_, activeAov_eq_some_iff.2 ⟨hm.findAov_pixels hjoins ha hlayer, rfl⟩, ?_⟩,
      _, hm.findChange_pixels hjoins ha hlayer, ?_⟩
    · have hshape := hjoins.aov_hasShape ha hlayer
      rwa [← hsource.layer.width_eq, ← hsource.layer.height_eq] at hshape
    · rw [FormatLayer.changes_size (aovBase_hasShape hjoins.fits name s.format a.background),
        size, hjoins.width_eq, hjoins.height_eq]
  · intro name hnone
    exact ⟨hm.findAov_inactive hnone, hm.findChange_inactive hnone⟩
  · refine ⟨hm.hasOutputs_iff, y.report.hasOutputs_iff.trans (exists_congr fun name => ?_)⟩
    rw [(hactive name).2]
  · have hfits := hm.fits hjoins
    rw [← hm.width_eq, ← hm.height_eq] at hfits
    exact validate_of_fits hfits

end Merges

/-- A merge that succeeds gives destination and change set the form of the source, whatever they
were before, and answers with the numbers of pixels of the change set. -/
theorem merge_conforms {a a' : Accumulator} {src dst dst' : Frame} {report report' : ChangeSet}
    {coarse : Bool} {tally : Tally} (hdst : dst.Reached)
    (hmerge : a.merge src dst report coarse = .ok ⟨.ok tally, a', dst', report'⟩) :
    src.Conforms ⟨dst, report⟩ ⟨dst', report'⟩ ∧ tally.Counts report' := by
  obtain ⟨hjoins, hm, rfl⟩ := a.tally_of_merge hdst.sound hmerge
  exact ⟨hm.conforms hjoins, hm.counts hjoins⟩

/-- A frame with a heat map, an output that owns pixels and an output that stands for alpha. -/
def mixedFrame : Frame :=
  ((openFrame.edit (.enable .heatMap)).edit (.aov "mirror" (.setupReference .alpha)))

def otherFrame : Frame :=
  (((new 2 2).edit (.enable .weight)).edit (.aov "depth" (.setupReference .beauty))).edit
    (.aov "old" (.setup .float3 2 2 (.zero 4) false))

theorem otherFrame_reached : otherFrame.Reached := (((Reached.new 2 2).edit _).edit _).edit _

theorem merge_conforms_of_other :
    ∃ tally a' dst' report',
      (⟨default, .new⟩ : Accumulator).merge mixedFrame otherFrame .new false
          = .ok ⟨.ok tally, a', dst', report'⟩ ∧
        (dst'.aux? .heatMap).isSome = true ∧ (dst'.aux? .weight).isSome = false ∧
        dst'.activeAovNames = ["depth", "mirror"] ∧ report'.activeNames = ["depth", "mirror"] ∧
        (dst'.findAov "old").any (fun old => old.active) = false ∧
        tally.aux.get .weight = 0 ∧ tally.aovs.get? "mirror" = none := by
  have hmixed : mixedFrame.Fits 2 2 :=
    (validate_eq_ok_iff (((((Reached.new 2 2).edit _).edit _).edit _).sound)).1 rfl
  have hother : otherFrame.Fits 2 2 := (validate_eq_ok_iff otherFrame_reached.sound).1 rfl
  have hjoins : otherFrame.Joins mixedFrame :=
    ⟨otherFrame_reached.sound, hother, rfl, rfl, hmixed⟩
  obtain ⟨tally, a', dst', report', hmerge⟩ :=
    Accumulator.exists_merge_of_joins hjoins ⟨default, .new⟩ .new false
  obtain ⟨hform, hcounts⟩ := merge_conforms otherFrame_reached hmerge
  have hnames : mixedFrame.activeAovNames = ["depth", "mirror"] := by decide +kernel
  refine ⟨tally, a', dst', report', hmerge, (hform.aux_isSome .heatMap).1,
    (hform.aux_isSome .weight).1, hform.active_names.1.trans hnames,
    hform.active_names.2.trans hnames, ?_, ?_, ?_⟩
  · rw [(hform.aov_other "old" rfl).1]
    rfl
  · have hweight : report'.aux? .weight = none :=
      Option.isSome_eq_false_iff.1 (hform.aux_isSome .weight).2 |> Option.isNone_iff_eq_none.1
    rw [hcounts.aux, hweight]
    rfl
  · have hmirror := (hform.aov_reference "mirror" _ .alpha rfl rfl).2
    rw [hcounts.aovs, ChangeSet.liveMask, show report'.findAov "mirror" = _ from hmirror]
    rfl

end Frame

end RenderFold
