/-
The shape of a change set through all that is done with it.

Sizes, switches and activity are changed by different calls, and much stays behind that is not in
use. `ChangeSet.Follows` says what a single call does to them: masks in use have the size of the
set, a kind is switched on by what gives it an empty mask and off by what gives the set a size, and
an entry stays.
-/
import RenderFold.Proofs.Frame.Report

namespace RenderFold

inductive AovChangeEdit where
  | init (width height : UInt32)
  | initReference (target : Intrinsic)
  | deactivate
  | collectUnused
  | insert (x y : UInt32)

/-- An entry after an edit. A reference has no mask in which a pixel could be set. -/
def AovChange.edit (c : AovChange) : AovChangeEdit → AovChange
  | .init width height => c.init width height
  | .initReference target => c.initReference target
  | .deactivate => c.deactivate
  | .collectUnused => c.collectUnused
  | .insert x y =>
      match c.mask? with
      | some mask => c.withMask (mask.insert x y).2
      | none => c

theorem AovChange.collectUnused_eq (c : AovChange) :
    c.collectUnused = if c.active then c else ⟨.mask .empty, false⟩ := by
  rcases c with ⟨pixels, active⟩
  cases active <;> rfl

/-- What can be done with a change set that has a size. An edit needs an entry that exists; merges
are merges of frames that callers can build. -/
inductive ChangeCall where
  | init (width height : UInt32)
  | enable (k : AuxKind)
  | openAov (name : String)
  | aov (name : String) (e : AovChangeEdit)
  | retain (keep : String → Bool → Bool)
  | collectUnused
  | merge (a : Accumulator) (src dst : { f : Frame // f.Reached }) (coarse : Bool)

namespace ChangeCall

/-- The call gives the set a size and switches all kinds off. A merge begins with that, unless it is
refused. -/
def Resets : ChangeCall → Prop
  | .init _ _ => True
  | .merge _ src dst _ => dst.1.check src.1 = .ok ()
  | _ => False

/-- The call switches a kind on. A merge does it for the kinds of its source, unless it is
refused. -/
def Initialises : ChangeCall → AuxKind → Prop
  | .enable j, k => j = k
  | .merge _ src dst _, k => dst.1.check src.1 = .ok () ∧ (src.1.aux? k).isSome = true
  | _, _ => False

end ChangeCall

/-- Some call has switched the kind on, and no call after it has given the set a size. -/
def InitialisedSince (k : AuxKind) (calls : List ChangeCall) : Prop :=
  ∃ c later, c :: later <:+ calls ∧ c.Initialises k ∧ ∀ d ∈ later, ¬ d.Resets

theorem initialisedSince_cons {k : AuxKind} {c : ChangeCall} {rest : List ChangeCall} :
    InitialisedSince k (c :: rest)
      ↔ InitialisedSince k rest ∨ (c.Initialises k ∧ ∀ d ∈ rest, ¬ d.Resets) := by
  constructor
  · rintro ⟨d, later, hsuffix, hd, hlater⟩
    rcases List.suffix_cons_iff.1 hsuffix with heq | hsuffix
    · rcases List.cons.inj heq with ⟨rfl, rfl⟩
      exact .inr ⟨hd, hlater⟩
    · exact .inl ⟨d, later, hsuffix, hd, hlater⟩
  · rintro (⟨d, later, hsuffix, hd, hlater⟩ | ⟨hc, hrest⟩)
    · exact ⟨d, later, hsuffix.trans (List.suffix_cons c rest), hd, hlater⟩
    · exact ⟨c, rest, List.suffix_rfl, hc, hrest⟩

namespace ChangeSet

def call (s : ChangeSet) : ChangeCall → Except Fault ChangeSet
  | .init width height => .ok (s.init width height)
  | .enable k => s.enable k
  | .openAov name => .ok (s.aov name).2
  | .aov name e =>
      match s.findAov name with
      | some c => .ok (s.withAov name (c.edit e))
      | none => .ok s
  | .retain keep => .ok (s.retain keep)
  | .collectUnused => .ok s.collectUnused
  | .merge a src dst coarse => do
      let done ← a.merge src.1 dst.1 s coarse
      return done.report

def run (width height : UInt32) (calls : List ChangeCall) : Except Fault ChangeSet :=
  calls.foldlM call (new.init width height)

/-! ### One call -/

/-- Every mask in use has the size of the set. -/
structure Shaped (s : ChangeSet) : Prop where
  sized : s.sized = true
  beauty : s.beauty.size = ⟨s.width, s.height⟩
  aux : ∀ k m, s.aux? k = some m → m.size = ⟨s.width, s.height⟩

/-- What a call keeps and what it makes of the switches. -/
structure Follows (s : ChangeSet) (c : ChangeCall) (s' : ChangeSet) : Prop where
  shaped : s'.Shaped
  aux_iff : ∀ k, (s'.aux? k).isSome = true
    ↔ c.Initialises k ∨ ((s.aux? k).isSome = true ∧ ¬ c.Resets)
  kept : ∀ name, (s.findAov name).isSome = true → (s'.findAov name).isSome = true

theorem init_aux?_eq_none (s : ChangeSet) (w h : UInt32) (k : AuxKind) :
    (s.init w h).aux? k = none := by
  rw [aux?, init, PerKind.get_ofFn]
  rfl

theorem init_shaped (s : ChangeSet) (w h : UInt32) : (s.init w h).Shaped where
  sized := rfl
  beauty := by
    rw [init, PixelMask.clear_resize]
    rfl
  aux := by
    intro k m hm
    rw [init_aux?_eq_none] at hm
    cases hm

/-- Once the set has a size, switching a kind on succeeds. -/
theorem enable_eq_ok {s : ChangeSet} (hs : s.sized = true) (k : AuxKind) :
    s.enable k = .ok { s with aux := s.aux.set k ⟨true, .blank s.width s.height⟩ } := by
  rw [enable, if_pos hs, PixelMask.clear_resize]

theorem aux?_set (s : ChangeSet) (k j : AuxKind) (m : PixelMask) :
    aux? { s with aux := s.aux.set k ⟨true, m⟩ } j = if k = j then some m else s.aux? j := by
  by_cases hj : k = j
  · subst hj
    simp [aux?, Switched.get?]
  · simp [aux?, hj, PerKind.get_set_of_ne _ (Ne.symm hj)]

theorem enable_follows {s : ChangeSet} (hs : s.Shaped) (k : AuxKind) :
    s.Follows (.enable k) { s with aux := s.aux.set k ⟨true, .blank s.width s.height⟩ } where
  shaped := by
    refine ⟨hs.sized, hs.beauty, ?_⟩
    intro j m hm
    rw [aux?_set] at hm
    split at hm
    · obtain rfl := Option.some.inj hm
      rfl
    · exact hs.aux j m hm
  aux_iff := by
    intro j
    rw [aux?_set]
    by_cases hj : k = j
    · simp [hj, ChangeCall.Initialises]
    · simp [hj, ChangeCall.Initialises, ChangeCall.Resets]
  kept := fun _ h => h

/-- Calls that only change entries. -/
theorem entries_follow {s : ChangeSet} (hs : s.Shaped) {c : ChangeCall} (hresets : ¬ c.Resets)
    (hinit : ∀ k, ¬ c.Initialises k) {t : NameTable AovChange}
    (hkept : ∀ name, (s.findAov name).isSome = true → (t.get? name).isSome = true) :
    s.Follows c { s with aovs := t } where
  shaped := ⟨hs.sized, hs.beauty, hs.aux⟩
  aux_iff := by
    intro k
    simp only [hinit k, hresets, not_false_eq_true, and_true, false_or]
    rfl
  kept := hkept

/-- A merge of frames that callers can build leaves the change set alone or gives it the shape of
the source. -/
theorem merge_follows {s : ChangeSet} (hs : s.Shaped) (a : Accumulator)
    (src dst : { f : Frame // f.Reached }) (coarse : Bool) :
    ∃ s', s.call (.merge a src dst coarse) = .ok s' ∧ s.Follows (.merge a src dst coarse) s' := by
  rcases src with ⟨src, hsrc⟩
  rcases dst with ⟨dst, hdst⟩
  rcases hcheck : dst.check src with e | _
  · refine ⟨s, bind_eq_ok.2 ⟨_, Frame.merge_of_check_eq_error a s coarse hcheck, rfl⟩, hs, ?_,
      fun _ h => h⟩
    intro k
    simp [ChangeCall.Initialises, ChangeCall.Resets, hcheck]
  · rcases Frame.merge_of_check_eq_ok a s coarse hdst.sound hsrc.sound hcheck
      with ⟨⟨_, a', dst', s'⟩, tally, hmerge, rfl, -⟩
    rcases a.merges_of_merge hdst.sound hmerge with ⟨hjoins, hm⟩
    have hwidth : s'.width = dst.width := hm.reportWidth_eq
    have hheight : s'.height = dst.height := hm.reportHeight_eq
    have haux : ∀ k, s'.aux? k = (src.aux? k).map (dst.auxBase k).changes :=
      fun k => (hm.aux?_eq hjoins k).2
    refine ⟨s', bind_eq_ok.2 ⟨_, hmerge, rfl⟩, ⟨hm.sized, ?_, ?_⟩, ?_, ?_⟩
    · rw [show s'.beauty = _ from hm.beauty_eq.2, hwidth, hheight]
      exact Layer.changes_size (hjoins.fits .beauty) _
    · intro k m hmask
      rw [haux, Option.map_eq_some_iff] at hmask
      rcases hmask with ⟨l, -, rfl⟩
      rw [hwidth, hheight]
      exact Layer.changes_size (Frame.auxBase_hasShape hjoins.fits k) l
    · intro k
      simp [haux, ChangeCall.Initialises, ChangeCall.Resets, hcheck]
    · intro name hname
      rcases src.activeAov_cases name with ha | ⟨b, target, ha, hb⟩ | ⟨b, l, ha, hb⟩
      · rw [show s'.findAov name = _ from hm.findChange_inactive ha, Option.isSome_map]
        exact hname
      · rw [show s'.findAov name = _ from hm.findChange_reference ha hb]
        rfl
      · rw [show s'.findAov name = _ from hm.findChange_pixels hjoins ha hb]
        rfl

/-- An edit of an entry changes nothing else. -/
theorem call_aov (s : ChangeSet) (name : String) (e : AovChangeEdit) :
    ∃ t, s.call (.aov name e) = .ok { s with aovs := t } ∧
      ∀ other, t.get? other
        = if other = name then (s.findAov other).map (·.edit e) else s.findAov other := by
  rcases hfind : s.findAov name with _ | held
  · refine ⟨s.aovs, by rw [call, hfind], ?_⟩
    intro other
    split
    case isTrue hother =>
      subst hother
      exact hfind.trans (by rw [hfind]; rfl)
    case isFalse => rfl
  · refine ⟨(s.withAov name (held.edit e)).aovs, by rw [call, hfind]; rfl, ?_⟩
    intro other
    change (s.withAov name (held.edit e)).findAov other = _
    rw [findAov_withAov]
    split
    case isTrue hother =>
      subst hother
      rw [hfind]
      rfl
    case isFalse => rfl

/-- No call on a set of the right shape faults. -/
theorem call_follows {s : ChangeSet} (hs : s.Shaped) (c : ChangeCall) :
    ∃ s', s.call c = .ok s' ∧ s.Follows c s' := by
  rcases c with ⟨w, h⟩ | k | name | ⟨name, e⟩ | keep | _ | ⟨a, src, dst, coarse⟩
  case init =>
    refine ⟨_, rfl, s.init_shaped w h, ?_, ?_⟩
    · intro k
      simp [init_aux?_eq_none, ChangeCall.Initialises, ChangeCall.Resets]
    · intro name hname
      rwa [findAov_init, Option.isSome_map]
  case enable => exact ⟨_, enable_eq_ok hs.sized k, enable_follows hs k⟩
  case openAov =>
    refine ⟨_, rfl, entries_follow hs id (fun _ => id) ?_⟩
    intro other hother
    change ((s.aov name).2.findAov other).isSome = true
    rw [findAov_aov]
    split
    · rfl
    · exact hother
  case aov =>
    rcases s.call_aov name e with ⟨t, hcall, hfind⟩
    refine ⟨_, hcall, entries_follow hs id (fun _ => id) ?_⟩
    intro other hother
    rw [hfind]
    split
    · rwa [Option.isSome_map]
    · exact hother
  case retain =>
    refine ⟨_, rfl, entries_follow hs id (fun _ => id) ?_⟩
    intro name hname
    change ((s.retain keep).findAov name).isSome = true
    rwa [findAov_retain, Option.isSome_map]
  case collectUnused =>
    refine ⟨_, rfl, entries_follow hs id (fun _ => id) ?_⟩
    intro name hname
    change (s.collectUnused.findAov name).isSome = true
    rwa [findAov_collectUnused, Option.isSome_map]
  case merge => exact merge_follows hs a src dst coarse

/-! ### Entries -/

/-- Deactivation takes the entries that are rejected out of use, and leaves the rest of them. -/
theorem findAov_retain_eq (s : ChangeSet) (keep : String → Bool → Bool) (name : String) :
    (s.retain keep).findAov name
      = (s.findAov name).map fun c => ⟨c.pixels, c.active && keep name c.active⟩ := by
  rw [findAov_retain]
  congr 1
  funext c
  rcases c with ⟨pixels, active⟩
  cases keep name active <;> simp [AovChange.deactivate]

theorem mem_active_iff (s : ChangeSet) (name : String) (c : AovChange) :
    (name, c) ∈ s.aovs.entries.filter (fun e => e.2.active)
      ↔ s.findAov name = some c ∧ c.active = true := by
  rw [List.mem_filter, ← NameTable.get?_eq_some_iff, findAov]

theorem visitActive_eq {σ : Type} (s : ChangeSet) (f : σ → String → AovChange → σ) (init : σ) :
    s.visitActive f init
      = ((s.aovs.entries.filter fun e => e.2.active).foldl (fun acc e => f acc e.1 e.2) init,
        (s.aovs.entries.filter fun e => e.2.active).length) := by
  rw [visitActive, foldl_counted (fun acc (e : String × AovChange) => f acc e.1 e.2), Nat.zero_add]

/-! ### Whole runs -/

theorem run_shaped (w h : UInt32) (calls : List ChangeCall) :
    ∃ s, run w h calls = .ok s ∧ s.Shaped ∧
      ∀ k, (s.aux? k).isSome = true ↔ InitialisedSince k calls := by
  -- a kind that was on before stays on until the set is given a size
  have hfrom : ∀ {s : ChangeSet}, s.Shaped → ∃ s', calls.foldlM call s = .ok s' ∧ s'.Shaped ∧
      ∀ k, (s'.aux? k).isSome = true
        ↔ InitialisedSince k calls ∨ ((s.aux? k).isSome = true ∧ ∀ d ∈ calls, ¬ d.Resets) := by
    induction calls with
    | nil =>
        intro s hs
        refine ⟨s, rfl, hs, ?_⟩
        intro k
        simp [InitialisedSince]
    | cons c rest ih =>
        intro s hs
        rcases call_follows hs c with ⟨next, hnext, hstep⟩
        rcases ih hstep.shaped with ⟨last, hlast, hshaped, haux⟩
        refine ⟨last, ?_, hshaped, ?_⟩
        · rw [List.foldlM_cons, hnext]
          exact hlast
        · intro k
          rw [haux, hstep.aux_iff, initialisedSince_cons]
          simp only [List.forall_mem_cons]
          tauto
  rcases hfrom (new.init_shaped w h) with ⟨s, hrun, hshaped, haux⟩
  refine ⟨s, hrun, hshaped, ?_⟩
  intro k
  rw [haux, init_aux?_eq_none]
  simp

/-- A change set keeps its shape. Whatever is done with it after it was first given a size, no call
faults; the beauty mask and the masks of all kinds that are switched on have the size of the set;
and a kind is switched on exactly if some call has initialised it since the set was last given a
size, which leaves its mask empty. No call takes an entry away. Deactivation reaches the active
entries that are rejected, and changes no storage; collection empties what inactive entries hold;
and the active entries are visited in strictly ascending order of their names. -/
theorem run_keeps_shape (w h : UInt32) (calls : List ChangeCall) :
    ∃ s, run w h calls = .ok s ∧
      s.beauty.size = ⟨s.width, s.height⟩ ∧
      (∀ k m, s.aux? k = some m → m.size = ⟨s.width, s.height⟩) ∧
      (∀ k, (s.aux? k).isSome = true ↔ InitialisedSince k calls) ∧
      (∀ k, ∃ s', s.call (.enable k) = .ok s' ∧ s'.aux? k = some (.blank s.width s.height)) ∧
      (∀ c, ∃ s', s.call c = .ok s' ∧
        ∀ name, (s.findAov name).isSome = true → (s'.findAov name).isSome = true) ∧
      (∀ keep, s.retain keep = { s with aovs := (s.retain keep).aovs } ∧
        ∀ name, (s.retain keep).findAov name
          = (s.findAov name).map fun c => ⟨c.pixels, c.active && keep name c.active⟩) ∧
      (s.collectUnused = { s with aovs := s.collectUnused.aovs } ∧
        ∀ name, s.collectUnused.findAov name
          = (s.findAov name).map fun c => if c.active then c else ⟨.mask .empty, false⟩) ∧
      (∀ name, ∃ t, s.call (.aov name .collectUnused) = .ok { s with aovs := t } ∧
        ∀ other, t.get? other
          = if other = name then
              (s.findAov other).map fun c => if c.active then c else ⟨.mask .empty, false⟩
            else s.findAov other) ∧
      ∃ visited : List (String × AovChange),
        visited.Pairwise (fun a b => NamePrecedes a.1 b.1) ∧
        (∀ name c, (name, c) ∈ visited ↔ s.findAov name = some c ∧ c.active = true) ∧
        ∀ (σ : Type) (f : σ → String → AovChange → σ) (init : σ),
          s.visitActive f init
            = (visited.foldl (fun acc e => f acc e.1 e.2) init, visited.length) := by
  rcases run_shaped w h calls with ⟨s, hrun, hs, haux⟩
  refine ⟨s, hrun, hs.beauty, hs.aux, haux, ?_, ?_, fun keep => ⟨rfl, s.findAov_retain_eq keep⟩,
    ⟨rfl, ?_⟩, ?_, _, s.aovs.ascending.filter _, s.mem_active_iff, fun _ => s.visitActive_eq⟩
  · intro k
    refine ⟨_, enable_eq_ok hs.sized k, ?_⟩
    rw [aux?_set, if_pos rfl]
  · intro c
    rcases call_follows hs c with ⟨s', hcall, hstep⟩
    exact ⟨s', hcall, hstep.kept⟩
  · intro name
    rw [findAov_collectUnused, funext AovChange.collectUnused_eq]
  · intro name
    rcases s.call_aov name .collectUnused with ⟨t, hcall, hfind⟩
    refine ⟨t, hcall, ?_⟩
    simpa only [AovChange.edit, AovChange.collectUnused_eq] using hfind

end ChangeSet

end RenderFold
