/-
Frames as callers can build them, and what a refused merge leaves behind.

`Frame.Reached` are the frames that the operations on frames, on their buffers and on their named
outputs can build, merges included. They are sound, whatever sizes their buffers were given. From
soundness alone it follows that a merge of frames is all or nothing: behind its first checks no
merge of a part can fail.
-/
import RenderFold.Proofs.Frame.Merge
import RenderFold.Accumulator

namespace RenderFold

inductive LayerEdit (V : Type) where
  | setPixel (x y : UInt32) (value : V) (count : UInt32)
  | clear
  | resize (width height : UInt32)

/-- What a caller can do to a named output and to the pixels that it owns. -/
inductive AovEdit where
  | setup (format : PixelFormat) (width height : UInt32) (background : Rgba) (closestFilter : Bool)
  | setupReference (target : Intrinsic)
  | deactivate
  | collectUnused
  | setPixel (x y : UInt32) (colour : Rgba) (count : UInt32)
  | clear (colour : Rgba)

inductive FrameEdit where
  | init (width height : UInt32)
  | enable (k : AuxKind)
  | disable (k : AuxKind)
  | beauty (e : LayerEdit Rgba)
  | aux (k : AuxKind) (e : LayerEdit (Texel k.channels))
  | openAov (name : String)
  | aov (name : String) (e : AovEdit)
  | refreshStatus
  | collectUnused

namespace Layer

variable {V : Type}

/-- A buffer after an edit; `blank` is the value of its fresh pixels. -/
def edit (l : Layer V) (blank : V) : LayerEdit V → Layer V
  | .setPixel x y value count => (l.setPixel x y value count).2
  | .clear => l.clear blank
  | .resize width height => (l.resize width height blank).2

theorem edit_sound {l : Layer V} {counted : Bool} (hl : l.Sound counted) (blank : V)
    (e : LayerEdit V) : (l.edit blank e).Sound counted := by
  cases e with
  | setPixel x y value count => exact (setPixel_hasShape hl x y value count).sound
  | clear =>
      rw [edit, clear_eq_filled hl]
      exact (filled_hasShape counted _ _ blank).sound
  | resize w h => exact (resize_hasShape hl w h blank).sound

end Layer

namespace Aov

def editLayer (a : Aov) (f : FormatLayer → FormatLayer) : Aov :=
  match a.layer? with
  | some l => a.withLayer (f l)
  | none => a

def edit (a : Aov) : AovEdit → Aov
  | .setup format w h background closestFilter => a.setup format w h background closestFilter
  | .setupReference target => a.setupReference target
  | .deactivate => a.deactivate
  | .collectUnused => a.collectUnused
  | .setPixel x y colour count => a.editLayer fun l => (l.setPixel x y colour count).2
  | .clear colour => a.editLayer fun l => l.clear colour

theorem editLayer_sound {a : Aov} (ha : a.Sound) {f : FormatLayer → FormatLayer}
    (hf : ∀ l, l.layer.Sound true → (f l).layer.Sound true) : (a.editLayer f).Sound := by
  rw [editLayer]
  cases hlayer : a.layer? with
  | none => exact ha
  | some l =>
      intro l' hl'
      have hstorage := layer?_eq_some_iff.1 hlayer
      simp only [withLayer, hstorage, layer?, Option.some.injEq] at hl'
      subst hl'
      exact hf l (ha l hlayer)

theorem collectUnused_sound {a : Aov} (ha : a.Sound) : a.collectUnused.Sound := by
  rw [collectUnused]
  split
  · exact ha
  · exact new_sound

theorem edit_sound {a : Aov} (ha : a.Sound) (e : AovEdit) : (a.edit e).Sound := by
  cases e with
  | setup format w h background closestFilter =>
      intro l hl
      obtain rfl := Option.some.inj hl
      exact (preparedLayer_hasShape ha format w h background).layer.sound
  | setupReference target =>
      intro l hl
      cases hl
  | deactivate => exact ha
  | collectUnused => exact collectUnused_sound ha
  | setPixel x y colour count =>
      apply editLayer_sound ha
      intro l hl
      exact (FormatLayer.setPixel_hasShape ⟨rfl, hl⟩ x y colour count).layer.sound
  | clear colour =>
      apply editLayer_sound ha
      intro l hl
      rw [FormatLayer.clear_eq_filled ⟨rfl, hl⟩]
      exact (FormatLayer.filled_hasShape l.format _ _ colour).layer.sound

end Aov

namespace Frame

def edit (f : Frame) : FrameEdit → Frame
  | .init width height => f.init width height
  | .enable k => f.enable k
  | .disable k => f.disable k
  | .beauty e => { f with beauty := f.beauty.edit (.zero 4) e }
  | .aux k e =>
      match f.aux? k with
      | some l => f.withAux k (l.edit (.zero k.channels) e)
      | none => f
  | .openAov name => (f.aov name).2
  | .aov name e => (f.aov name).2.withAov name ((f.aov name).1.edit e)
  | .refreshStatus => f.refreshStatus
  | .collectUnused => f.collectUnused

/-- The frames that callers can build. -/
inductive Reached : Frame → Prop
  | new (width height : UInt32) : Reached (new width height)
  | edit {f : Frame} (e : FrameEdit) : Reached f → Reached (f.edit e)
  | merge {a : Accumulator} {src dst : Frame} {report : ChangeSet} {coarse : Bool}
      {m : Accumulator.Merged} :
      Reached src → Reached dst → a.merge src dst report coarse = .ok m → Reached m.dst

theorem set_aux_sound {f : Frame} (hf : f.Sound) (k : AuxKind)
    {s : Switched (Layer (Texel k.channels))} (hs : s.content.Sound k.counted) :
    Sound { f with aux := f.aux.set k s } where
  beauty := hf.beauty
  aux j := by
    by_cases hj : j = k
    · subst hj
      simpa using hs
    · simpa [PerKind.get_set_of_ne _ hj] using hf.aux j
  aovs := hf.aovs

theorem aov_sound {f : Frame} (hf : f.Sound) (name : String) : (f.aov name).2.Sound where
  beauty := hf.beauty
  aux := hf.aux
  aovs := by
    intro other a ha
    rw [findAov_aov] at ha
    split at ha
    · obtain rfl := Option.some.inj ha
      exact hf.aov_sound name
    · exact hf.aovs other a ha

theorem withAov_sound {f : Frame} (hf : f.Sound) (name : String) {a : Aov} (ha : a.Sound) :
    (f.withAov name a).Sound where
  beauty := hf.beauty
  aux := hf.aux
  aovs := by
    intro other b hb
    rw [findAov_withAov] at hb
    split at hb
    · obtain ⟨_, _, rfl⟩ := Option.map_eq_some_iff.1 hb
      exact ha
    · exact hf.aovs other b hb

theorem edit_sound {f : Frame} (hf : f.Sound) (e : FrameEdit) : (f.edit e).Sound := by
  cases e with
  | init w h => exact init_sound hf w h
  | enable k => exact set_aux_sound hf k (enableLayer_hasShape (hf.aux k) _ _).sound
  | disable k => exact set_aux_sound hf k (hf.aux k)
  | beauty e => exact ⟨Layer.edit_sound hf.beauty _ e, hf.aux, hf.aovs⟩
  | aux k e =>
      rw [edit]
      cases hl : f.aux? k with
      | none => exact hf
      | some l =>
          have hsound := hf.aux k
          rw [aux?_eq_some_iff.1 hl] at hsound
          change (f.withAux k (l.edit (.zero k.channels) e)).Sound
          rw [withAux]
          split
          · exact set_aux_sound hf k (Layer.edit_sound hsound _ e)
          · exact hf
  | openAov name => exact aov_sound hf name
  | aov name e =>
      apply withAov_sound (aov_sound hf name) name
      rw [aov_entry]
      exact Aov.edit_sound (hf.aov_sound name) e
  | refreshStatus => exact ⟨hf.beauty, hf.aux, hf.aovs⟩
  | collectUnused =>
      refine ⟨hf.beauty, hf.aux, ?_⟩
      intro name a ha
      obtain ⟨held, hheld, rfl⟩ := Option.map_eq_some_iff.1
        ((NameTable.get?_mapEntries _ f.aovs name).symm.trans ha)
      exact Aov.collectUnused_sound (hf.aovs name held hheld)

/-! ### Refusals -/

section Merge

variable {src dst : Frame} (a : Accumulator) (report : ChangeSet) (coarse : Bool)

/-- A merge whose first checks refuse it changes nothing. -/
theorem merge_of_check_eq_error {e : MergeError} (hcheck : dst.check src = .error e) :
    a.merge src dst report coarse = .ok ⟨.error e, a, dst, report⟩ := by
  rw [Accumulator.merge, absorb, hcheck]
  rfl

/-- Sound frames that pass the first checks join. -/
theorem joins_of_check (hdst : dst.Sound) (hsrc : src.Sound) (hcheck : dst.check src = .ok ()) :
    dst.Joins src := by
  obtain ⟨⟨hwidth, hheight⟩, hvalid, hvalid'⟩ := check_eq_ok_iff.1 hcheck
  have hfits := (validate_eq_ok_iff hsrc).1 hvalid
  rw [hwidth, hheight] at hfits
  exact ⟨hdst, (validate_eq_ok_iff hdst).1 hvalid', hwidth, hheight, hfits⟩

/-- Between sound frames a merge is refused by its first checks or not at all. -/
theorem merge_of_check_eq_ok (hdst : dst.Sound) (hsrc : src.Sound)
    (hcheck : dst.check src = .ok ()) :
    ∃ m tally, a.merge src dst report coarse = .ok m ∧ m.answer = .ok tally ∧ m.dst.Sound := by
  have hjoins := joins_of_check hdst hsrc hcheck
  obtain ⟨y, hy, hm⟩ := absorb_eq_ok hjoins report a.recorder coarse
  exact ⟨_, _, bind_eq_ok.2 ⟨_, hy, rfl⟩, rfl, hm.sound hjoins⟩

end Merge

/-- A merge of sound frames leaves a sound destination, refused or not. -/
theorem merge_sound {a : Accumulator} {src dst : Frame} {report : ChangeSet} {coarse : Bool}
    {m : Accumulator.Merged} (hsrc : src.Sound) (hdst : dst.Sound)
    (hmerge : a.merge src dst report coarse = .ok m) : m.dst.Sound := by
  cases hcheck : dst.check src with
  | error e =>
      rw [merge_of_check_eq_error a report coarse hcheck] at hmerge
      obtain rfl := Except.ok.inj hmerge
      exact hdst
  | ok =>
      obtain ⟨m', _, hmerge', _, hsound⟩ := merge_of_check_eq_ok a report coarse hdst hsrc hcheck
      obtain rfl := Except.ok.inj (hmerge'.symm.trans hmerge)
      exact hsound

/-- Whatever is done to frames, their buffers fit their own sizes. -/
theorem Reached.sound {f : Frame} (hf : f.Reached) : f.Sound := by
  induction hf with
  | new w h => exact new_sound w h
  | edit e _ ih => exact edit_sound ih e
  | merge _ _ hmerge hsrc hdst => exact merge_sound hsrc hdst hmerge

/-- A merge of sound frames answers with an error exactly if its first checks do, and then it
changes nothing. -/
theorem merge_answer {src dst : Frame} (hsrc : src.Sound) (hdst : dst.Sound) (a : Accumulator)
    (report : ChangeSet) (coarse : Bool) :
    ∃ m, a.merge src dst report coarse = .ok m ∧
      (∀ e, m.answer = .error e ↔ dst.check src = .error e) ∧
      ∀ e, m.answer = .error e → m = ⟨.error e, a, dst, report⟩ := by
  cases hcheck : dst.check src with
  | error e =>
      refine ⟨_, merge_of_check_eq_error a report coarse hcheck, fun e' => by simp, ?_⟩
      intro e' he
      obtain rfl := Except.error.inj he
      rfl
  | ok =>
      obtain ⟨m, tally, hm, htally, -⟩ := merge_of_check_eq_ok a report coarse hdst hsrc hcheck
      refine ⟨m, hm, fun e => by simp [htally], ?_⟩
      intro e he
      rw [htally] at he
      cases he

/-- Only the first check compares the sizes of the frames. -/
theorem check_eq_sizes_iff {src dst : Frame} :
    dst.check src = .error (.sizes src.size dst.size) ↔ src.size ≠ dst.size := by
  rw [check]
  split
  · simp [*]
  · rename_i hsize
    refine iff_of_false ?_ hsize
    intro hcheck
    rcases bind_eq_error.1 hcheck with hs | ⟨_, _, hd⟩
    · obtain ⟨_, hreason⟩ := validate_error hs
      cases hreason
    · obtain ⟨_, hreason⟩ := validate_error hd
      cases hreason

/-- A merge of frames is all or nothing. It never faults. It is refused with the sizes exactly if
these differ, otherwise with what makes the source invalid, otherwise with what makes the
destination invalid, and then destination, change set and record are what they were; if there is
nothing to refuse, it succeeds. -/
theorem merge_all_or_nothing {src dst : Frame} (hsrc : src.Reached) (hdst : dst.Reached)
    (a : Accumulator) (report : ChangeSet) (coarse : Bool) :
    ∃ m, a.merge src dst report coarse = .ok m ∧
      (m.answer = .error (.sizes src.size dst.size) ↔ src.size ≠ dst.size) ∧
      (src.size = dst.size →
        match src.validate, dst.validate with
        | .error e, _ => m.answer = .error e ∧ ∃ reason, e = .invalid reason
        | .ok (), .error e => m.answer = .error e ∧ ∃ reason, e = .invalid reason
        | .ok (), .ok () => ∃ tally, m.answer = .ok tally) ∧
      ∀ e, m.answer = .error e → m = ⟨.error e, a, dst, report⟩ := by
  obtain ⟨m, hm, hanswer, hkeep⟩ := merge_answer hsrc.sound hdst.sound a report coarse
  refine ⟨m, hm, (hanswer _).trans check_eq_sizes_iff, ?_, hkeep⟩
  intro hsize
  have hcheck : dst.check src = (do src.validate; dst.validate) := if_neg (not_not_intro hsize)
  cases hs : src.validate with
  | error e =>
      rw [hs] at hcheck
      exact ⟨(hanswer e).2 hcheck, validate_error hs⟩
  | ok =>
      rw [hs] at hcheck
      cases hd : dst.validate with
      | error e => exact ⟨(hanswer e).2 (hcheck.trans hd), validate_error hd⟩
      | ok =>
          cases hm' : m.answer with
          | ok tally => exact ⟨tally, rfl⟩
          | error e =>
              have herror := (hcheck.trans hd).symm.trans ((hanswer e).1 hm')
              cases herror

/-- A frame whose beauty was given another size than the frame has. -/
def resizedFrame : Frame := (new 2 2).edit (.beauty (.resize 3 3))

theorem resizedFrame_validate :
    resizedFrame.validate = .error (.invalid (.bufferSize "beauty" ⟨3, 3⟩ ⟨2, 2⟩)) := rfl

theorem merge_all_or_nothing_of_resized :
    (⟨default, .new⟩ : Accumulator).merge resizedFrame (new 2 2) .new false
      = .ok ⟨.error (.invalid (.bufferSize "beauty" ⟨3, 3⟩ ⟨2, 2⟩)), ⟨default, .new⟩, new 2 2,
          .new⟩ := by
  have hreached : resizedFrame.Reached := (Reached.new 2 2).edit _
  obtain ⟨m, hm, -, hanswer, hkeep⟩ := merge_all_or_nothing hreached (Reached.new 2 2)
    ⟨default, .new⟩ .new false
  have hrefused := hanswer rfl
  rw [resizedFrame_validate] at hrefused
  rw [← hkeep _ hrefused.1]
  exact hm

end Frame

end RenderFold
