/-
Buffers and outputs that are used again.

Storage outlives its use: a kind that is switched off and an output that is inactive keep what they
hold, and neither is touched where the frame is given another size. What is in use with the wanted
form stays as it is when it is asked for again; everything else starts out blank, whatever was done
before.
-/
import RenderFold.Proofs.Frame.Ground

namespace RenderFold

namespace Layer

variable {V : Type}

/-- Every slot has the same value, no count and no bit, the slots beside the image included. -/
structure IsBlank (l : Layer V) (width height : UInt32) (counted : Bool) (fill : V) : Prop where
  hasShape : l.HasShape width height counted
  values_eq : ∀ value ∈ l.values, value = fill
  counts_eq : ∀ counts ∈ l.counts, ∀ count ∈ counts, count = 0
  tiles_eq : ∀ tile ∈ l.mask.tiles, tile = 0

theorem filled_isBlank (counted : Bool) (w h : UInt32) (fill : V) :
    (filled counted w h fill).IsBlank w h counted fill where
  hasShape := filled_hasShape counted w h fill
  values_eq _ hvalue := (Array.mem_replicate.1 hvalue).2
  counts_eq := by
    cases counted with
    | false => exact fun _ hcounts => nomatch hcounts
    | true =>
        intro counts hcounts count hcount
        obtain rfl := Option.some.inj hcounts
        exact (Array.mem_replicate.1 hcount).2
  tiles_eq _ htile := (Array.mem_replicate.1 htile).2

end Layer

namespace Aov

/-- Setting up an output leaves the pixels alone that are in use with the wanted layout and size;
otherwise the output owns blank pixels, whose values are the leading channels of the background. -/
structure SetsUpBlank (a : Aov) : Prop where
  keeps : ∀ format w h background closestFilter, a.keepsLayer format w h = true →
    a.setup format w h background closestFilter
      = { a with background := background, closestFilter := closestFilter }
  renews : ∀ format w h background closestFilter, a.keepsLayer format w h = false →
    ∃ l : Layer (Texel format.channels),
      a.setup format w h background closestFilter
        = ⟨.pixels ⟨format, l⟩, true, background, closestFilter⟩ ∧
      l.IsBlank w h true (background.convert format.channels)

variable {a : Aov} {format : PixelFormat} {w h : UInt32}

theorem keepsLayer_iff :
    a.keepsLayer format w h = true ↔
      ∃ l, a = ⟨.pixels l, true, a.background, a.closestFilter⟩ ∧
        l.matchesFormat format w h = true := by
  obtain ⟨storage, active, background, closestFilter⟩ := a
  cases storage with
  | pixels l => simp [keepsLayer, layer?]
  | reference target => simp [keepsLayer, layer?]

theorem setsUpBlank_of_sound (ha : a.Sound) : a.SetsUpBlank where
  keeps format w h background closestFilter hkept := by
    obtain ⟨l, heq, hfits⟩ := keepsLayer_iff.1 hkept
    rw [setup, preparedLayer, heq]
    simp only [hfits, if_true]
  renews format w h background closestFilter hnew := by
    refine ⟨_, ?_, Layer.filled_isBlank true w h _⟩
    have hprepared : a.preparedLayer format w h background = .filled format w h background := by
      rw [preparedLayer_eq ha]
      rw [keepsLayer] at hnew
      cases hlayer : a.layer? with
      | none => rfl
      | some l =>
          rw [hlayer, Option.any_some, ← Bool.not_eq_true, Bool.and_eq_true] at hnew
          exact if_neg hnew
    rw [setup, hprepared]
    rfl

end Aov

theorem PerKind.set_get_self {α : AuxKind → Type} (p : PerKind α) (k : AuxKind) :
    p.set k (p.get k) = p := by
  cases k <;> rfl

namespace Frame

variable {f : Frame} {k : AuxKind}

def keepsAux (f : Frame) (k : AuxKind) : Bool := (f.aux? k).any fun l => l.mask.size = f.size

/-- Switching a kind on leaves a frame alone in which the kind is on with the frame's size;
otherwise the kind is on afterwards with a blank buffer of that size, and nothing else is changed.
The outputs of the frame are set up in the same manner. -/
structure ReopensBlank (f : Frame) : Prop where
  keeps : ∀ k, f.keepsAux k = true → f.enable k = f
  renews : ∀ k, f.keepsAux k = false →
    ∃ l, f.enable k = { f with aux := f.aux.set k ⟨true, l⟩ } ∧
      l.IsBlank f.width f.height k.counted (.zero k.channels)
  aovs : ∀ name a, f.findAov name = some a → a.SetsUpBlank

theorem keepsAux_iff :
    f.keepsAux k = true ↔ (f.aux.get k).isOn = true ∧
      (f.aux.get k).content.mask.width = f.width ∧
      (f.aux.get k).content.mask.height = f.height := by
  rw [keepsAux, aux?, Switched.get?]
  cases (f.aux.get k).isOn with
  | false => simp
  | true => simp [PixelMask.size, size]

theorem enable_eq (hf : f.Sound) (k : AuxKind) :
    f.enable k
      = { f with aux := f.aux.set k ⟨true,
          if f.keepsAux k = true then (f.aux.get k).content
          else .filled k.counted f.width f.height (.zero k.channels)⟩ } := by
  have hcontent := enableLayer_content (hf.aux k) f.width f.height
  simp only [← keepsAux_iff] at hcontent
  rw [← hcontent]
  rfl

theorem reopensBlank_of_sound (hf : f.Sound) : f.ReopensBlank where
  keeps k hkept := by
    obtain ⟨hon, -⟩ := keepsAux_iff.1 hkept
    have hbuffer : (⟨true, (f.aux.get k).content⟩ : Switched _) = f.aux.get k := by
      rw [← hon]
    rw [enable_eq hf, if_pos hkept, hbuffer, PerKind.set_get_self]
  renews k hnew := by
    rw [enable_eq hf, if_neg (Bool.not_eq_true _ ▸ hnew)]
    exact ⟨_, rfl, Layer.filled_isBlank k.counted f.width f.height _⟩
  aovs name a ha := Aov.setsUpBlank_of_sound (hf.aovs name a ha)

/-- Whatever was done to a frame or to an output, by calls or by merges: what was out of use, or in
use with another form, is blank when it is used again, and what is in use already is not lost by
asking for it twice. -/
theorem reopens_blank {a : Aov} {ground : Rgba} (hf : f.Reached) (ha : a.Reached ground) :
    f.ReopensBlank ∧ a.SetsUpBlank :=
  ⟨reopensBlank_of_sound hf.sound, Aov.setsUpBlank_of_sound ha.sound_hasGround.1⟩

/-- A frame whose heat map was switched off with a sample in it. -/
def reusedFrame : Frame :=
  (((new 2 2).edit (.enable .heatMap)).edit (.aux .heatMap (.setPixel 0 0 #v[7] 3))).edit
    (.disable .heatMap)

theorem reusedFrame_reached : reusedFrame.Reached := (((Reached.new 2 2).edit _).edit _).edit _

/-- The sample is still there, and is gone when the heat map is switched on again. -/
theorem reopens_blank_of_reused :
    reusedFrame.Reached ∧ Aov.repaintedAov.Reached (.zero 4) ∧
      (reusedFrame.aux.get .heatMap).content.pixel? 0 0 = some (#v[7], 3) ∧
      (∃ l, reusedFrame.enable .heatMap
          = { reusedFrame with aux := reusedFrame.aux.set .heatMap ⟨true, l⟩ } ∧
        l.IsBlank 2 2 true (.zero 1)) ∧
      Aov.repaintedAov.setup .float 8 8 (.zero 4) true
        = { Aov.repaintedAov with background := .zero 4, closestFilter := true } := by
  obtain ⟨hframe, haov⟩ := reopens_blank reusedFrame_reached Aov.repaintedAov_reached
  refine ⟨reusedFrame_reached, Aov.repaintedAov_reached, rfl, ?_, ?_⟩
  · exact hframe.renews .heatMap (by decide +kernel)
  · exact haov.keeps .float 8 8 (.zero 4) true (by decide +kernel)

end Frame

end RenderFold
