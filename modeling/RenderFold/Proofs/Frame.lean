/-
Frames whose arrays fit, and frames that fit the size of an image.

`Frame.Sound` is kept by every operation on frames: each buffer fits its own size, which need not be
the size of the frame. `Frame.Fits` asks the latter of every part that is in use. On sound frames
`Frame.validate` decides it.
-/
import RenderFold.Proofs.Layer.Format
import RenderFold.Proofs.NameTable
import RenderFold.Frame.Absorb

namespace RenderFold

theorem bind_eq_error {ε α β : Type} {x : Except ε α} {f : α → Except ε β} {e : ε} :
    (x >>= f) = .error e ↔ x = .error e ∨ ∃ a, x = .ok a ∧ f a = .error e := by
  cases x with
  | error e' => simp [bind, Except.bind]
  | ok a => simp [bind, Except.bind]

theorem forM_eq_ok_iff {ε α : Type} {xs : List α} {g : α → Except ε Unit} :
    xs.forM g = .ok () ↔ ∀ x ∈ xs, g x = .ok () := by
  induction xs with
  | nil => simp [pure, Except.pure]
  | cons x rest ih =>
      rw [List.forM, bind_eq_ok]
      constructor
      · rintro ⟨_, hx, hrest⟩ y hy
        rcases List.mem_cons.1 hy with rfl | hy
        · exact hx
        · exact ih.1 hrest y hy
      · intro hall
        exact ⟨(), hall x List.mem_cons_self,
          ih.2 fun y hy => hall y (List.mem_cons_of_mem x hy)⟩

theorem exists_of_forM_eq_error {ε α : Type} {xs : List α} {g : α → Except ε Unit} {e : ε}
    (h : xs.forM g = .error e) : ∃ x ∈ xs, g x = .error e := by
  induction xs with
  | nil => cases h
  | cons x rest ih =>
      rw [List.forM] at h
      cases hx : g x with
      | error e' =>
          rw [hx] at h
          exact ⟨x, List.mem_cons_self, hx.trans h⟩
      | ok =>
          rw [hx] at h
          obtain ⟨y, hy, hgy⟩ := ih h
          exact ⟨y, List.mem_cons_of_mem x hy, hgy⟩

@[simp] theorem AuxKind.mem_all (k : AuxKind) : k ∈ AuxKind.all := by
  cases k <;> decide

theorem PerKind.ext_get {α : AuxKind → Type} {p q : PerKind α} (h : ∀ k, p.get k = q.get k) :
    p = q := by
  obtain ⟨_, _, _, _⟩ := p
  obtain ⟨_, _, _, _⟩ := q
  obtain rfl := h .pixelInfo
  obtain rfl := h .heatMap
  obtain rfl := h .weight
  obtain rfl := h .oddBeauty
  rfl

namespace Aov

/-- The pixels that an output owns fit their own size. -/
def Sound (a : Aov) : Prop := ∀ l, a.layer? = some l → l.layer.Sound true

theorem layer?_eq_some_iff {a : Aov} {l : FormatLayer} :
    a.layer? = some l ↔ a.storage = .pixels l := by
  rw [layer?]
  cases a.storage <;> simp

theorem new_sound : Aov.new.Sound := by
  intro l hl
  cases hl
  exact (Layer.empty_hasShape true).sound

/-- Setting up an output with pixels keeps the ones it has if it is active and they fit, and starts
with fresh ones otherwise. -/
theorem preparedLayer_eq {a : Aov} (ha : a.Sound) (format : PixelFormat) (w h : UInt32)
    (background : Rgba) :
    a.preparedLayer format w h background
      = match a.layer? with
        | some l =>
            if a.active = true ∧ l.matchesFormat format w h = true then l
            else .filled format w h background
        | none => .filled format w h background := by
  rw [preparedLayer]
  cases hstorage : a.storage with
  | reference target => simp [layer?, hstorage]
  | pixels l =>
      have hlayer := layer?_eq_some_iff.2 hstorage
      rw [hlayer]
      cases hfits : l.matchesFormat format w h with
      | false => simp [hfits]
      | true =>
          cases hactive : a.active with
          | true => simp [hfits]
          | false =>
              have hshape := FormatLayer.hasShape_of_matchesFormat (ha l hlayer) hfits
              simp [hfits, FormatLayer.clear_eq_filled hshape]

theorem preparedLayer_hasShape {a : Aov} (ha : a.Sound) (format : PixelFormat) (w h : UInt32)
    (background : Rgba) : (a.preparedLayer format w h background).HasShape format w h := by
  rw [preparedLayer_eq ha]
  split
  · rename_i l hlayer
    split
    · rename_i hkept
      exact FormatLayer.hasShape_of_matchesFormat (ha l hlayer) hkept.2
    · exact FormatLayer.filled_hasShape format w h background
  · exact FormatLayer.filled_hasShape format w h background

end Aov

namespace Frame

def activeAov (f : Frame) (name : String) : Option Aov :=
  (f.findAov name).filter fun a => a.active

/-- Frames that hold the same are equal. -/
theorem ext_get {f g : Frame} (hwidth : f.width = g.width) (hheight : f.height = g.height)
    (hbeauty : f.beauty = g.beauty) (haux : ∀ k, f.aux.get k = g.aux.get k)
    (haovs : ∀ name, f.findAov name = g.findAov name) (houtputs : f.hasOutputs = g.hasOutputs) :
    f = g := by
  have haux' := PerKind.ext_get haux
  have haovs' : f.aovs = g.aovs := NameTable.ext_get? haovs
  cases f
  cases g
  simp_all

/-- The pixels of a named output that is active and owns pixels. -/
def liveLayer (f : Frame) (name : String) : Option FormatLayer := (f.activeAov name).bind Aov.layer?

/-- Every buffer of a frame fits its own size, the ones that are switched off included. -/
structure Sound (f : Frame) : Prop where
  beauty : f.beauty.Sound true
  aux : ∀ k, (f.aux.get k).content.Sound k.counted
  aovs : ∀ name a, f.findAov name = some a → a.Sound

/-- A part is not in use or has the given size. -/
def FitsAt (f : Frame) (width height : UInt32) : FramePart → Prop
  | .beauty => f.beauty.HasShape width height true
  | .aux k => ∀ l, f.aux? k = some l → l.HasShape width height k.counted
  | .aov name => ∀ l, f.liveLayer name = some l → l.HasShape l.format width height

def Fits (f : Frame) (width height : UInt32) : Prop := ∀ part, f.FitsAt width height part

theorem activeAov_eq_some_iff {f : Frame} {name : String} {a : Aov} :
    f.activeAov name = some a ↔ f.findAov name = some a ∧ a.active = true :=
  Option.filter_eq_some_iff

theorem activeAov_eq_none_iff {f : Frame} {name : String} :
    f.activeAov name = none ↔ ∀ a, f.findAov name = some a → a.active = false := by
  rw [activeAov, Option.filter_eq_none_iff]
  simp only [Bool.not_eq_true]

theorem liveLayer_eq_some_iff {f : Frame} {name : String} {l : FormatLayer} :
    f.liveLayer name = some l ↔
      ∃ a, f.findAov name = some a ∧ a.active = true ∧ a.layer? = some l := by
  rw [liveLayer, Option.bind_eq_some_iff]
  constructor
  · rintro ⟨a, hactive, hlayer⟩
    obtain ⟨hfind, hactive⟩ := activeAov_eq_some_iff.1 hactive
    exact ⟨a, hfind, hactive, hlayer⟩
  · rintro ⟨a, hfind, hactive, hlayer⟩
    exact ⟨a, activeAov_eq_some_iff.2 ⟨hfind, hactive⟩, hlayer⟩

theorem liveLayer_of_activeAov {f : Frame} {name : String} {a : Aov} {l : FormatLayer}
    (ha : f.activeAov name = some a) (hl : a.layer? = some l) : f.liveLayer name = some l :=
  Option.bind_eq_some_iff.2 ⟨a, ha, hl⟩

/-- A named output is not active, stands for an intrinsic buffer, or owns pixels. -/
theorem activeAov_cases (f : Frame) (name : String) :
    f.activeAov name = none ∨
      (∃ a target, f.activeAov name = some a ∧ a.storage = .reference target) ∨
      ∃ a l, f.activeAov name = some a ∧ a.layer? = some l := by
  cases ha : f.activeAov name with
  | none => exact .inl rfl
  | some a =>
      cases hstorage : a.storage with
      | reference target => exact .inr (.inl ⟨a, target, rfl, hstorage⟩)
      | pixels l => exact .inr (.inr ⟨a, l, rfl, Aov.layer?_eq_some_iff.2 hstorage⟩)

theorem hasActive_eq_isSome (f : Frame) (name : String) :
    f.hasActive name = (f.activeAov name).isSome := by
  rw [hasActive, activeAov]
  cases f.findAov name with
  | none => rfl
  | some a => cases ha : a.active <;> simp [ha]

theorem aux?_eq_some_iff {f : Frame} {k : AuxKind} {l : Layer (Texel k.channels)} :
    f.aux? k = some l ↔ f.aux.get k = ⟨true, l⟩ := by
  rw [aux?, Switched.get?]
  generalize f.aux.get k = s
  obtain ⟨isOn, content⟩ := s
  cases isOn <;> simp

theorem aux?_eq_none_iff {f : Frame} {k : AuxKind} :
    f.aux? k = none ↔ (f.aux.get k).isOn = false := by
  rw [aux?, Switched.get?]
  split <;> simp_all

/-- Switching a kind on keeps its buffer if it is on and has the size, and starts with a fresh one
otherwise. -/
theorem enableLayer_content {n : Nat} {s : Switched (Layer (Texel n))} {counted : Bool}
    (hs : s.content.Sound counted) (w h : UInt32) :
    (enableLayer s w h).content
      = if s.isOn = true ∧ s.content.mask.width = w ∧ s.content.mask.height = h then s.content
        else .filled counted w h (.zero n) := by
  rw [enableLayer]
  by_cases hsize : s.content.mask.width = w ∧ s.content.mask.height = h
  · have hshape := hs.hasShape hsize.1 hsize.2
    cases hon : s.isOn <;>
      simp [Layer.resize_eq_self hshape, hsize, Layer.clear_eq_filled hshape]
  · simp [Layer.resize_eq_filled hs hsize, hsize]

theorem enableLayer_hasShape {n : Nat} {s : Switched (Layer (Texel n))} {counted : Bool}
    (hs : s.content.Sound counted) (w h : UInt32) :
    (enableLayer s w h).content.HasShape w h counted := by
  rw [enableLayer_content hs]
  split
  · rename_i hkept
    exact hs.hasShape hkept.2.1 hkept.2.2
  · exact Layer.filled_hasShape counted w h _

theorem Sound.aov_sound {f : Frame} (hf : f.Sound) (name : String) :
    ((f.findAov name).getD .new).Sound := by
  cases hfind : f.findAov name with
  | none => exact Aov.new_sound
  | some a => exact hf.aovs name a hfind

/-! ### Validation -/

theorem checkSize_eq_ok_iff {f : Frame} {buffer : String} {m : PixelMask} :
    f.checkSize buffer m = .ok () ↔ m.width = f.width ∧ m.height = f.height := by
  rw [checkSize, PixelMask.size, size, ← ImageSize.mk.injEq]
  split <;> simp [*]

theorem checkSize_error {f : Frame} {buffer : String} {m : PixelMask} {e : MergeError}
    (h : f.checkSize buffer m = .error e) : ∃ reason, e = .invalid reason := by
  rw [checkSize] at h
  split at h
  · cases h
  · cases h
    exact ⟨_, rfl⟩

theorem validate_of_fits {f : Frame} (hfits : f.Fits f.width f.height) : f.validate = .ok () := by
  have hbeauty := hfits .beauty
  simp only [validate, bind_eq_ok]
  refine ⟨(), checkSize_eq_ok_iff.2 ⟨hbeauty.width_eq, hbeauty.height_eq⟩, (),
    forM_eq_ok_iff.2 ?_, forM_eq_ok_iff.2 ?_⟩
  · intro k _
    cases hl : f.aux? k with
    | none => rfl
    | some l =>
        have hshape := hfits (.aux k) l hl
        exact checkSize_eq_ok_iff.2 ⟨hshape.width_eq, hshape.height_eq⟩
  · rintro ⟨name, a⟩ hmem
    cases hactive : a.active with
    | false => rfl
    | true =>
        cases hlayer : a.layer? with
        | none => rfl
        | some l =>
            have hfind := NameTable.get?_eq_some_iff.2 hmem
            have hshape := (hfits (.aov name) l
              (liveLayer_eq_some_iff.2 ⟨a, hfind, hactive, hlayer⟩)).layer
            exact checkSize_eq_ok_iff.2 ⟨hshape.width_eq, hshape.height_eq⟩

/-- A sound frame is valid exactly if every part in use has the size of the frame. -/
theorem validate_eq_ok_iff {f : Frame} (hf : f.Sound) :
    f.validate = .ok () ↔ f.Fits f.width f.height := by
  refine ⟨?_, validate_of_fits⟩
  simp only [validate, bind_eq_ok]
  rintro ⟨⟨⟩, hbeauty, ⟨⟩, haux, haovs⟩ part
  rw [forM_eq_ok_iff] at haux haovs
  cases part with
  | beauty =>
      obtain ⟨hw, hh⟩ := checkSize_eq_ok_iff.1 hbeauty
      exact hf.beauty.hasShape hw hh
  | aux k =>
      intro l hl
      have hsize := haux k (AuxKind.mem_all k)
      rw [hl] at hsize
      obtain ⟨hw, hh⟩ := checkSize_eq_ok_iff.1 hsize
      have hsound := hf.aux k
      rw [aux?_eq_some_iff.1 hl] at hsound
      exact hsound.hasShape hw hh
  | aov name =>
      intro l hl
      obtain ⟨a, hfind, hactive, hlayer⟩ := liveLayer_eq_some_iff.1 hl
      have hsize := haovs (name, a) (NameTable.get?_eq_some_iff.1 hfind)
      simp only [hactive, hlayer] at hsize
      obtain ⟨hw, hh⟩ := checkSize_eq_ok_iff.1 hsize
      exact ⟨rfl, (hf.aovs name a hfind l hlayer).hasShape hw hh⟩

/-- What validation refuses it refuses as invalid. -/
theorem validate_error {f : Frame} {e : MergeError} (h : f.validate = .error e) :
    ∃ reason, e = .invalid reason := by
  rw [validate] at h
  rcases bind_eq_error.1 h with hbeauty | ⟨_, _, h⟩
  · exact checkSize_error hbeauty
  rcases bind_eq_error.1 h with haux | ⟨_, _, haovs⟩
  · obtain ⟨k, _, hk⟩ := exists_of_forM_eq_error haux
    split at hk
    · exact checkSize_error hk
    · cases hk
  · obtain ⟨⟨name, a⟩, _, ha⟩ := exists_of_forM_eq_error haovs
    simp only at ha
    split at ha
    · exact checkSize_error ha
    · cases ha

/-! ### New frames -/

theorem init_beauty {f : Frame} (hf : f.beauty.Sound true) (w h : UInt32) :
    (f.init w h).beauty = .filled true w h (.zero 4) := by
  have hresize : (f.init w h).beauty
      = if (f.beauty.resize w h (.zero 4)).1 then (f.beauty.resize w h (.zero 4)).2
        else (f.beauty.resize w h (.zero 4)).2.clear (.zero 4) := rfl
  rw [hresize]
  by_cases hsize : f.beauty.mask.width = w ∧ f.beauty.mask.height = h
  · have hshape := hf.hasShape hsize.1 hsize.2
    simp [Layer.resize_eq_self hshape, Layer.clear_eq_filled hshape]
  · simp [Layer.resize_eq_filled hf hsize]

@[simp] theorem init_aux?_eq_none (f : Frame) (w h : UInt32) (k : AuxKind) :
    (f.init w h).aux? k = none := by
  simp [aux?, init, Switched.off, Switched.get?]

theorem init_findAov (f : Frame) (w h : UInt32) (name : String) :
    (f.init w h).findAov name = (f.findAov name).map Aov.deactivate :=
  NameTable.get?_mapEntries _ f.aovs name

@[simp] theorem init_liveLayer_eq_none (f : Frame) (w h : UInt32) (name : String) :
    (f.init w h).liveLayer name = none := by
  rw [Option.eq_none_iff_forall_ne_some]
  intro l hl
  obtain ⟨a, hfind, hactive, -⟩ := liveLayer_eq_some_iff.1 hl
  rw [init_findAov, Option.map_eq_some_iff] at hfind
  obtain ⟨held, _, rfl⟩ := hfind
  cases hactive

/-- Giving a frame a size makes it fit that size, since no more than beauty is in use. -/
theorem init_fits {f : Frame} (hf : f.beauty.Sound true) (w h : UInt32) :
    (f.init w h).Fits w h := by
  intro part
  cases part with
  | beauty =>
      rw [FitsAt, init_beauty hf]
      exact Layer.filled_hasShape true w h _
  | aux k =>
      intro l hl
      rw [init_aux?_eq_none] at hl
      cases hl
  | aov name =>
      intro l hl
      rw [init_liveLayer_eq_none] at hl
      cases hl

theorem init_sound {f : Frame} (hf : f.Sound) (w h : UInt32) : (f.init w h).Sound := by
  constructor
  · rw [init_beauty hf.beauty]
    exact (Layer.filled_hasShape true w h _).sound
  · intro k
    have hcontent : ((f.init w h).aux.get k).content = (f.aux.get k).content := by
      simp [init, Switched.off]
    rw [hcontent]
    exact hf.aux k
  · intro name a ha
    rw [init_findAov, Option.map_eq_some_iff] at ha
    obtain ⟨held, hheld, rfl⟩ := ha
    exact hf.aovs name held hheld

def blank : Frame where
  width := 0
  height := 0
  beauty := .empty true
  aux := .ofFn fun k => ⟨false, .empty k.counted⟩
  aovs := .empty
  hasOutputs := false

theorem blank_sound : blank.Sound where
  beauty := (Layer.empty_hasShape true).sound
  aux k := by
    have hcontent : (blank.aux.get k).content = .empty k.counted := by simp [blank]
    rw [hcontent]
    exact (Layer.empty_hasShape k.counted).sound
  aovs := by
    intro name a ha
    cases ha

theorem new_sound (w h : UInt32) : (new w h).Sound := init_sound blank_sound w h

theorem new_fits (w h : UInt32) : (new w h).Fits w h := init_fits blank_sound.beauty w h

theorem new_beauty (w h : UInt32) : (new w h).beauty = .filled true w h (.zero 4) :=
  init_beauty blank_sound.beauty w h

end Frame

end RenderFold
