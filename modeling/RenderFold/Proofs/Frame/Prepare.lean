/-
What a merge does to destination and change set before pixels are merged.

An exchange is looked at part by part, by `Exchange.view`. `Frame.prepareAt` says what becomes of a
single part: it depends on the source and on that part alone. Everything that is about no single
part is kept in the header of the exchange.
-/
import RenderFold.Proofs.Frame

namespace RenderFold

/-- Steps that succeed, keep `P` and change what is seen of their own key only. -/
theorem foldlM_view {ε σ κ : Type} {γ : κ → Type} [DecidableEq κ] (step : σ → κ → Except ε σ)
    (view : σ → (k : κ) → γ k) (f : (k : κ) → γ k → γ k) (P : σ → Prop)
    (hstep : ∀ s k, P s → ∃ s', step s k = .ok s' ∧ P s' ∧ view s' k = f k (view s k) ∧
      ∀ j, j ≠ k → view s' j = view s j)
    {keys : List κ} (hkeys : keys.Nodup) (s : σ) (hs : P s) :
    ∃ s', keys.foldlM step s = .ok s' ∧ P s' ∧
      ∀ j, view s' j = if j ∈ keys then f j (view s j) else view s j := by
  induction keys generalizing s with
  | nil => exact ⟨s, rfl, hs, by simp⟩
  | cons k rest ih =>
      obtain ⟨hnot, hrest⟩ := List.nodup_cons.1 hkeys
      obtain ⟨next, hnext, hP, hself, hother⟩ := hstep s k hs
      obtain ⟨last, hlast, hP', hview⟩ := ih hrest next hP
      refine ⟨last, ?_, hP', ?_⟩
      · rw [List.foldlM_cons, hnext]
        exact hlast
      · intro j
        rw [hview]
        by_cases hj : j = k
        · subst hj
          simp [hnot, hself]
        · simp [hj, hother j hj]

/-- Change sets that hold the same are equal. -/
theorem ChangeSet.ext_get {r s : ChangeSet} (hsized : r.sized = s.sized)
    (hwidth : r.width = s.width) (hheight : r.height = s.height) (hbeauty : r.beauty = s.beauty)
    (haux : ∀ k, r.aux.get k = s.aux.get k) (haovs : ∀ name, r.findAov name = s.findAov name) :
    r = s := by
  have haux' := PerKind.ext_get haux
  have haovs' : r.aovs = s.aovs := NameTable.ext_get? haovs
  cases r
  cases s
  simp_all

/-! ### The parts of an exchange -/

/-- What a destination and a change set hold of a part. -/
abbrev PartState : FramePart → Type
  | .beauty => Layer Rgba × PixelMask
  | .aux k => Switched (Layer (Texel k.channels)) × Switched PixelMask
  | .aov _ => Option Aov × Option AovChange

/-- What belongs to no single part of an exchange. -/
structure ExchangeHeader where
  width : UInt32
  height : UInt32
  hasOutputs : Bool
  sized : Bool
  reportWidth : UInt32
  reportHeight : UInt32

namespace Exchange

def view (x : Exchange) : (part : FramePart) → PartState part
  | .beauty => (x.dst.beauty, x.report.beauty)
  | .aux k => (x.dst.aux.get k, x.report.aux.get k)
  | .aov name => (x.dst.findAov name, x.report.findAov name)

def header (x : Exchange) : ExchangeHeader where
  width := x.dst.width
  height := x.dst.height
  hasOutputs := x.dst.hasOutputs
  sized := x.report.sized
  reportWidth := x.report.width
  reportHeight := x.report.height

/-- An exchange is its header and its parts. -/
theorem ext_view {x y : Exchange} (hheader : x.header = y.header)
    (hview : ∀ part, x.view part = y.view part) : x = y := by
  have hbeauty := Prod.mk.inj (hview .beauty)
  have haux := fun k => Prod.mk.inj (hview (.aux k))
  have haovs := fun name => Prod.mk.inj (hview (.aov name))
  have hdst : x.dst = y.dst := Frame.ext_get (congrArg ExchangeHeader.width hheader)
    (congrArg ExchangeHeader.height hheader) hbeauty.1 (fun k => (haux k).1)
    (fun name => (haovs name).1) (congrArg ExchangeHeader.hasOutputs hheader)
  have hreport : x.report = y.report := ChangeSet.ext_get (congrArg ExchangeHeader.sized hheader)
    (congrArg ExchangeHeader.reportWidth hheader) (congrArg ExchangeHeader.reportHeight hheader)
    hbeauty.2 (fun k => (haux k).2) fun name => (haovs name).2
  cases x
  cases y
  rw [Exchange.mk.injEq]
  exact ⟨hdst, hreport⟩

end Exchange

namespace Aov

/-- Set up an output of the destination after an output of the source. -/
def follow (a : Aov) (width height : UInt32) (held : Aov) : Aov :=
  match a.storage with
  | .reference target => held.setupReference target
  | .pixels l => held.setup l.format width height a.background a.closestFilter

/-- Set up an entry of the change set after an output of the source. -/
def followChange (a : Aov) (width height : UInt32) (entry : AovChange) : AovChange :=
  match a.storage with
  | .reference target => entry.initReference target
  | .pixels _ => entry.init width height

end Aov

namespace Frame

/-- A part of an exchange that has been given the form of the source. -/
def prepareAt (src : Frame) : (part : FramePart) → PartState part → PartState part
  | .beauty, st => (st.1, (st.2.resize src.width src.height).clear)
  | .aux k, st =>
      if (src.aux.get k).isOn then
        (enableLayer st.1 src.width src.height,
          ⟨true, (st.2.content.resize src.width src.height).clear⟩)
      else (st.1.off, st.2.off)
  | .aov name, st =>
      match src.activeAov name with
      | some a =>
          (some (a.follow src.width src.height (st.1.getD .new)),
            some (a.followChange src.width src.height
              ((st.2.map AovChange.deactivate).getD .new).activate))
      | none => (st.1.map Aov.deactivate, st.2.map AovChange.deactivate)

/-- A named output of an exchange, set up if the source has an active one of its name. -/
def setUpAov (src : Frame) (name : String) (st : PartState (.aov name)) : PartState (.aov name) :=
  match src.activeAov name with
  | some a =>
      (some (a.follow src.width src.height (st.1.getD .new)),
        some (a.followChange src.width src.height (st.2.getD .new).activate))
  | none => st

/-- A named output has its change reset before it is set up, and is switched off after that if the
source has no such output. -/
theorem prepareAt_aov (src : Frame) (name : String) (st : PartState (.aov name)) :
    src.prepareAt (.aov name) st
      = ((src.setUpAov name (st.1, st.2.map AovChange.deactivate)).1.map fun a =>
          if src.hasActive name then a else a.deactivate,
        (src.setUpAov name (st.1, st.2.map AovChange.deactivate)).2) := by
  rw [prepareAt, setUpAov, hasActive_eq_isSome]
  cases src.activeAov name with
  | some a => rfl
  | none => rfl

/-! ### Named outputs -/

theorem findAov_aov (f : Frame) (name other : String) :
    (f.aov name).2.findAov other
      = if other = name then some ((f.findAov name).getD .new) else f.findAov other :=
  NameTable.get?_getOrInsert f.aovs name (fun _ => Aov.new) other

theorem aov_entry (f : Frame) (name : String) : (f.aov name).1 = (f.findAov name).getD .new :=
  NameTable.getOrInsert_entry f.aovs name fun _ => Aov.new

theorem findAov_withAov (f : Frame) (name : String) (a : Aov) (other : String) :
    (f.withAov name a).findAov other
      = if other = name then (f.findAov other).map fun _ => a else f.findAov other :=
  NameTable.get?_update f.aovs name _ other

end Frame

namespace AovChange

theorem mask?_init (c : AovChange) (w h : UInt32) : ∃ mask, (c.init w h).mask? = some mask := by
  obtain ⟨pixels, active⟩ := c
  cases pixels with
  | mask m => exact ⟨_, rfl⟩
  | reference target => exact ⟨_, rfl⟩

theorem withMask_init (c : AovChange) (w h : UInt32) (m : PixelMask) :
    (c.init w h).withMask m = ⟨.mask m, true⟩ := by
  obtain ⟨pixels, active⟩ := c
  cases pixels <;> rfl

theorem deactivate_deactivate (c : AovChange) : c.deactivate.deactivate = c.deactivate := rfl

end AovChange

namespace ChangeSet

theorem findAov_retain (s : ChangeSet) (keep : String → Bool → Bool) (name : String) :
    (s.retain keep).findAov name
      = (s.findAov name).map fun c => if keep name c.active then c else c.deactivate :=
  NameTable.get?_mapEntries _ s.aovs name

theorem findAov_aov (s : ChangeSet) (name other : String) :
    (s.aov name).2.findAov other
      = if other = name then some ((s.findAov name).getD .new).activate else s.findAov other := by
  have hentry := NameTable.getOrInsert_entry s.aovs name fun _ => AovChange.new
  rw [findAov, aov, NameTable.get?_update, NameTable.get?_getOrInsert, hentry]
  by_cases h : other = name
  · simp [h, findAov]
  · simp [h, findAov]

theorem findAov_init (s : ChangeSet) (width height : UInt32) (name : String) :
    (s.init width height).findAov name = (s.findAov name).map AovChange.deactivate :=
  NameTable.get?_mapEntries _ s.aovs name

theorem aov_entry (s : ChangeSet) (name : String) :
    (s.aov name).1 = ((s.findAov name).getD .new).activate :=
  congrArg AovChange.activate (NameTable.getOrInsert_entry s.aovs name fun _ => AovChange.new)

theorem findAov_withAov (s : ChangeSet) (name : String) (entry : AovChange) (other : String) :
    (s.withAov name entry).findAov other
      = if other = name then (s.findAov other).map fun _ => entry else s.findAov other :=
  NameTable.get?_update s.aovs name _ other

end ChangeSet

namespace Frame

/-- Setting up a named output changes that output, if it is active, and nothing else. -/
theorem findAov_prepareAov (src : Frame) (x : Exchange) (name : String) (a : Aov)
    (other : String) :
    (prepareAov src x name a).view (.aov other)
      = if other = name ∧ a.active = true then
          (some (a.follow src.width src.height ((x.dst.findAov name).getD .new)),
            some (a.followChange src.width src.height
              ((x.report.findAov name).getD .new).activate))
        else x.view (.aov other) := by
  rw [prepareAov]
  cases hactive : a.active with
  | false => simp
  | true =>
      cases hstorage : a.storage with
      | reference target =>
          simp only [if_true, hstorage, Exchange.view, findAov_withAov, findAov_aov,
            ChangeSet.findAov_withAov, ChangeSet.findAov_aov, aov_entry, ChangeSet.aov_entry,
            Aov.follow, Aov.followChange]
          by_cases h : other = name
          · simp [h]
          · simp [h]
      | pixels l =>
          simp only [if_true, hstorage, Exchange.view, findAov_withAov, findAov_aov,
            ChangeSet.findAov_withAov, ChangeSet.findAov_aov, aov_entry, ChangeSet.aov_entry,
            Aov.follow, Aov.followChange]
          by_cases h : other = name
          · simp [h]
          · simp [h]

theorem prepareAov_rest (src : Frame) (x : Exchange) (name : String) (a : Aov) :
    (prepareAov src x name a).header = x.header ∧
      (prepareAov src x name a).view .beauty = x.view .beauty ∧
      ∀ k, (prepareAov src x name a).view (.aux k) = x.view (.aux k) := by
  rw [prepareAov]
  cases hactive : a.active with
  | false => exact ⟨rfl, rfl, fun _ => rfl⟩
  | true => cases hstorage : a.storage <;> exact ⟨rfl, rfl, fun _ => rfl⟩

/-- Going through the outputs of the source sets up the active ones. -/
theorem foldl_prepareAov (src : Frame) (x : Exchange) :
    ∃ y, src.aovs.entries.foldl (fun x e => prepareAov src x e.1 e.2) x = y ∧
      y.header = x.header ∧ y.view .beauty = x.view .beauty ∧
      (∀ k, y.view (.aux k) = x.view (.aux k)) ∧
      ∀ name, y.view (.aov name) = src.setUpAov name (x.view (.aov name)) := by
  obtain ⟨hheader, hbeauty, haux⟩ := List.foldlRecOn
    (motive := fun y => y.header = x.header ∧ y.view .beauty = x.view .beauty ∧
      ∀ k, y.view (.aux k) = x.view (.aux k))
    src.aovs.entries (fun x e => prepareAov src x e.1 e.2) ⟨rfl, rfl, fun _ => rfl⟩
    (by
      rintro y ⟨hheader, hbeauty, haux⟩ e _
      obtain ⟨hheader', hbeauty', haux'⟩ := prepareAov_rest src y e.1 e.2
      exact ⟨hheader'.trans hheader, hbeauty'.trans hbeauty, fun k => (haux' k).trans (haux k)⟩)
  refine ⟨_, rfl, hheader, hbeauty, haux, ?_⟩
  intro name
  have hview := NameTable.foldl_entries_view (prepareAov src)
    (fun x name => x.view (.aov name))
    (fun a st => if a.active = true then
        (some (a.follow src.width src.height (st.1.getD .new)),
          some (a.followChange src.width src.height (st.2.getD .new).activate))
      else st)
    (fun x name a => by
      rw [findAov_prepareAov]
      simp [Exchange.view])
    (fun x name a other hother => by
      rw [findAov_prepareAov, if_neg fun h => hother h.1])
    src.aovs x name
  rw [hview, setUpAov]
  cases hactive : src.activeAov name with
  | some a =>
      obtain ⟨hfind, ha⟩ := activeAov_eq_some_iff.1 hactive
      rw [findAov] at hfind
      simp only [hfind, ha, if_true]
  | none =>
      cases hfind : src.aovs.get? name with
      | none => rfl
      | some a =>
          have ha := activeAov_eq_none_iff.1 hactive a hfind
          simp only [ha, Bool.false_eq_true, if_false]

/-! ### Auxiliary kinds -/

/-- Switching a kind on or off succeeds once the change set has a size, and changes that kind
only. -/
theorem prepareAux_eq_ok (src : Frame) {x : Exchange} (hsized : x.report.sized = true)
    (k : AuxKind) :
    ∃ y, prepareAux src x k = .ok y ∧ y.header = x.header ∧ y.view .beauty = x.view .beauty ∧
      (∀ name, y.view (.aov name) = x.view (.aov name)) ∧
      (y.view (.aux k)
        = if (src.aux.get k).isOn then
            (enableLayer (x.dst.aux.get k) x.dst.width x.dst.height,
              ⟨true, ((x.report.aux.get k).content.resize x.report.width x.report.height).clear⟩)
          else ((x.dst.aux.get k).off, x.report.aux.get k)) ∧
      ∀ j, j ≠ k → y.view (.aux j) = x.view (.aux j) := by
  rw [prepareAux]
  cases hon : (src.aux.get k).isOn with
  | false =>
      refine ⟨_, rfl, rfl, rfl, fun _ => rfl, ?_, ?_⟩
      · simp [Exchange.view, disable]
      · intro j hj
        simp [Exchange.view, disable, PerKind.get_set_of_ne _ hj]
  | true =>
      simp only [ChangeSet.enable, hsized, if_true]
      refine ⟨_, rfl, ?_, rfl, fun _ => rfl, ?_, ?_⟩
      · simp [Exchange.header, enable, hsized]
      · simp [Exchange.view, enable]
      · intro j hj
        simp [Exchange.view, enable, PerKind.get_set_of_ne _ hj]

theorem all_foldlM_prepareAux (src : Frame) {x : Exchange} (hsized : x.report.sized = true) :
    ∃ y, AuxKind.all.foldlM (prepareAux src) x = .ok y ∧ y.header = x.header ∧
      y.view .beauty = x.view .beauty ∧ (∀ name, y.view (.aov name) = x.view (.aov name)) ∧
      ∀ k, y.view (.aux k)
        = if (src.aux.get k).isOn then
            (enableLayer (x.dst.aux.get k) x.dst.width x.dst.height,
              ⟨true, ((x.report.aux.get k).content.resize x.report.width x.report.height).clear⟩)
          else ((x.dst.aux.get k).off, x.report.aux.get k) := by
  obtain ⟨y, hy, ⟨hheader, hbeauty, haov⟩, hview⟩ := foldlM_view (prepareAux src)
    (fun x k => x.view (.aux k))
    (fun k st => if (src.aux.get k).isOn then
        (enableLayer st.1 x.dst.width x.dst.height,
          ⟨true, (st.2.content.resize x.report.width x.report.height).clear⟩)
      else (st.1.off, st.2))
    (fun y => y.header = x.header ∧ y.view .beauty = x.view .beauty ∧
      ∀ name, y.view (.aov name) = x.view (.aov name))
    (by
      rintro y k ⟨hheader, hbeauty, haov⟩
      have hsized' : y.report.sized = true := (congrArg ExchangeHeader.sized hheader).trans hsized
      obtain ⟨z, hz, hheader', hbeauty', haov', hself, hother⟩ := prepareAux_eq_ok src hsized' k
      refine ⟨z, hz, ⟨hheader'.trans hheader, hbeauty'.trans hbeauty,
        fun name => (haov' name).trans (haov name)⟩, ?_, hother⟩
      have hwidth : y.dst.width = x.dst.width := congrArg ExchangeHeader.width hheader
      have hheight : y.dst.height = x.dst.height := congrArg ExchangeHeader.height hheader
      have hwidth' : y.report.width = x.report.width :=
        congrArg ExchangeHeader.reportWidth hheader
      have hheight' : y.report.height = x.report.height :=
        congrArg ExchangeHeader.reportHeight hheader
      rw [hself, hwidth, hheight, hwidth', hheight']
      rfl)
    (by decide : AuxKind.all.Nodup) x ⟨rfl, rfl, fun _ => rfl⟩
  refine ⟨y, hy, hheader, hbeauty, haov, ?_⟩
  intro k
  rw [hview, if_pos (AuxKind.mem_all k)]
  rfl

/-! ### All of it -/

theorem findAov_dropForeign (src dst : Frame) (name : String) :
    (dropForeign src dst).findAov name
      = (dst.findAov name).map fun a => if src.hasActive name then a else a.deactivate :=
  NameTable.get?_mapEntries _ dst.aovs name

theorem hasOutputs_refreshStatus (f : Frame) :
    f.refreshStatus.hasOutputs = true ↔ ∃ name, f.hasActive name = true := by
  rw [refreshStatus, NameTable.any_entries_iff f.aovs fun a => a.active]
  simp only [hasActive, findAov, Option.any_eq_true]

theorem follow_active (a : Aov) (w h : UInt32) (held : Aov) :
    (a.follow w h held).active = true := by
  rw [Aov.follow]
  cases a.storage <;> rfl

/-- After preparation the active outputs are the ones of the source. -/
theorem any_active_prepareAt (src : Frame) (name : String) (st : PartState (.aov name)) :
    (src.prepareAt (.aov name) st).1.any (fun a => a.active) = src.hasActive name := by
  obtain ⟨held, entry⟩ := st
  rw [hasActive_eq_isSome]
  simp only [prepareAt]
  cases hactive : src.activeAov name with
  | some a => simp [follow_active]
  | none => cases held <;> simp [Aov.deactivate]

/-- What the last step of preparation makes of a named output. -/
theorem view_dropForeign (src : Frame) (x : Exchange) (name : String) :
    Exchange.view { x with dst := (dropForeign src x.dst).refreshStatus } (.aov name)
      = ((x.dst.findAov name).map fun a => if src.hasActive name then a else a.deactivate,
        x.report.findAov name) :=
  congrArg (·, x.report.findAov name) (findAov_dropForeign src x.dst name)

/-- What belongs to no single part comes from the source, whatever it was before preparation. -/
def preparedHeader (src : Frame) : ExchangeHeader where
  width := src.width
  height := src.height
  hasOutputs := src.refreshStatus.hasOutputs
  sized := true
  reportWidth := src.width
  reportHeight := src.height

/-- Preparation succeeds and gives every part the form of the source. -/
theorem prepare_eq_ok {src : Frame} {x : Exchange} (hwidth : x.dst.width = src.width)
    (hheight : x.dst.height = src.height) :
    ∃ y, prepare src x = .ok y ∧ y.header = src.preparedHeader ∧
      ∀ part, y.view part = src.prepareAt part (x.view part) := by
  obtain ⟨y, hy, hheader, hbeauty, haov, haux⟩ := all_foldlM_prepareAux src
    (x := { x with report := x.report.init src.width src.height }) rfl
  obtain ⟨z, hz, hheader', hbeauty', haux', haov'⟩ := foldl_prepareAov src y
  have hhead := hheader'.trans hheader
  have hview : ∀ part, Exchange.view { z with dst := (dropForeign src z.dst).refreshStatus } part
      = src.prepareAt part (x.view part) := by
    intro part
    cases part with
    | beauty => exact hbeauty'.trans hbeauty
    | aux k =>
        have hk := (haux' k).trans (haux k)
        simp only [hwidth, hheight, ChangeSet.init, PerKind.get_ofFn] at hk
        exact hk
    | aov name =>
        have hstart : y.view (.aov name)
            = ((x.view (.aov name)).1, (x.view (.aov name)).2.map AovChange.deactivate) :=
          (haov name).trans (congrArg _ (x.report.findAov_init _ _ name))
        rw [view_dropForeign, prepareAt_aov, ← hstart, ← haov' name]
        rfl
  have houtputs : (dropForeign src z.dst).refreshStatus.hasOutputs
      = src.refreshStatus.hasOutputs := by
    rw [Bool.eq_iff_iff, hasOutputs_refreshStatus, hasOutputs_refreshStatus]
    refine exists_congr fun name => ?_
    rw [← any_active_prepareAt src name (x.view (.aov name)), ← hview (.aov name)]
    exact Iff.rfl
  refine ⟨{ z with dst := (dropForeign src z.dst).refreshStatus }, ?_, ?_, hview⟩
  · rw [prepare]
    simp only [hy, hz, bind, Except.bind, pure, Except.pure]
  · have hrest : z.header
        = ⟨src.width, src.height, x.dst.hasOutputs, true, src.width, src.height⟩ := by
      rw [hhead, Exchange.header, hwidth, hheight]
      rfl
    rw [preparedHeader, ← houtputs]
    exact congrArg (fun header : ExchangeHeader =>
      { header with hasOutputs := (dropForeign src z.dst).refreshStatus.hasOutputs }) hrest

end Frame

end RenderFold
