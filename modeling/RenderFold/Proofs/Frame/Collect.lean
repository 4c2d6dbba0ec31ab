/-
Collection between merges.

Collection frees what inactive outputs hold. A merge never reads that: what it brings back into use
it clears first, and masks it writes anew. So the frame after collection, `Frame.collectUnused`, is
an abstraction of frames under which a merge with collected storage and one with stale storage do
the same, and under which collection is no step at all.
-/
import RenderFold.Proofs.Frame.Form

namespace RenderFold

theorem forM_map_congr {ε α β : Type} {xs : List α} {f : α → β} {g : β → Except ε Unit}
    {g' : α → Except ε Unit} (h : ∀ x ∈ xs, g (f x) = g' x) : (xs.map f).forM g = xs.forM g' := by
  induction xs with
  | nil => rfl
  | cons x rest ih =>
      rw [List.map_cons, List.forM, List.forM, h x List.mem_cons_self,
        ih fun y hy => h y (List.mem_cons_of_mem x hy)]

theorem Aov.collectUnused_collectUnused (a : Aov) :
    a.collectUnused.collectUnused = a.collectUnused := by
  cases hactive : a.active <;> simp [collectUnused, hactive]

theorem AovChange.collectUnused_collectUnused (c : AovChange) :
    c.collectUnused.collectUnused = c.collectUnused := by
  cases hactive : c.active <;> simp [collectUnused, hactive]

/-- Collection takes nothing from an output that stands for a buffer from now on. -/
theorem Aov.setupReference_collectUnused (a : Aov) (target : Intrinsic) :
    a.collectUnused.setupReference target = a.setupReference target := by
  cases hactive : a.active <;> simp [collectUnused, setupReference, hactive]

theorem Aov.deactivate_collectUnused (a : Aov) :
    a.collectUnused.deactivate.collectUnused = a.deactivate.collectUnused := by
  cases hactive : a.active <;> simp [collectUnused, deactivate, hactive]

theorem AovChange.deactivate_collectUnused (c : AovChange) :
    c.collectUnused.deactivate.collectUnused = c.deactivate.collectUnused := by
  cases hactive : c.active <;> simp [collectUnused, deactivate, hactive]

namespace ChangeSet

def activeAov (s : ChangeSet) (name : String) : Option AovChange :=
  (s.findAov name).filter fun c => c.active

theorem collectUnused_collectUnused (s : ChangeSet) :
    s.collectUnused.collectUnused = s.collectUnused := by
  simp only [collectUnused, NameTable.mapEntries_mapEntries, AovChange.collectUnused_collectUnused]

theorem findAov_collectUnused (s : ChangeSet) (name : String) :
    s.collectUnused.findAov name = (s.findAov name).map AovChange.collectUnused :=
  NameTable.get?_mapEntries _ s.aovs name

theorem activeAov_collectUnused (s : ChangeSet) (name : String) :
    s.collectUnused.activeAov name = s.activeAov name := by
  rw [activeAov, activeAov, findAov_collectUnused]
  cases s.findAov name with
  | none => rfl
  | some c =>
      cases hactive : c.active <;> simp [AovChange.collectUnused, Option.filter_some, hactive]

/-- Change sets that agree on what is in use, and on the names of all entries. -/
structure Agrees (r s : ChangeSet) : Prop where
  beauty : r.beauty = s.beauty
  aux : ∀ k, r.aux? k = s.aux? k
  aovs : ∀ name, r.activeAov name = s.activeAov name
  names : r.aovs.names = s.aovs.names

theorem agrees_of_collected {r s : ChangeSet} (h : r.collectUnused = s.collectUnused) :
    r.Agrees s where
  beauty := (congrArg ChangeSet.beauty h :)
  aux k := (congrArg (ChangeSet.aux? · k) h :)
  aovs name := by
    rw [← r.activeAov_collectUnused, h, s.activeAov_collectUnused]
  names := by
    have hnames := congrArg (fun s => s.aovs.names) h
    simpa only [collectUnused, NameTable.names_mapEntries] using hnames

theorem mask?_collectUnused (s : ChangeSet) (part : FramePart) :
    s.collectUnused.mask? part = s.mask? part := by
  cases part with
  | beauty => rfl
  | aux k => rfl
  | aov name => exact congrArg (Option.bind · AovChange.mask?) (s.activeAov_collectUnused name)

end ChangeSet

namespace Frame

theorem collectUnused_collectUnused (f : Frame) :
    f.collectUnused.collectUnused = f.collectUnused := by
  simp only [collectUnused, NameTable.mapEntries_mapEntries, Aov.collectUnused_collectUnused]

theorem findAov_collectUnused (f : Frame) (name : String) :
    f.collectUnused.findAov name = (f.findAov name).map Aov.collectUnused :=
  NameTable.get?_mapEntries _ f.aovs name

theorem activeAov_collectUnused (f : Frame) (name : String) :
    f.collectUnused.activeAov name = f.activeAov name := by
  rw [activeAov, activeAov, findAov_collectUnused]
  cases f.findAov name with
  | none => rfl
  | some a => cases hactive : a.active <;> simp [Aov.collectUnused, Option.filter_some, hactive]

/-- Frames that agree on what is in use, and on the names of all outputs. -/
structure Agrees (f g : Frame) : Prop where
  size : f.size = g.size
  beauty : f.beauty = g.beauty
  aux : ∀ k, f.aux? k = g.aux? k
  aovs : ∀ name, f.activeAov name = g.activeAov name
  names : f.aovs.names = g.aovs.names
  hasOutputs : f.hasOutputs = g.hasOutputs

theorem agrees_of_collected {f g : Frame} (h : f.collectUnused = g.collectUnused) :
    f.Agrees g where
  size := (congrArg Frame.size h :)
  beauty := (congrArg Frame.beauty h :)
  aux k := (congrArg (Frame.aux? · k) h :)
  aovs name := by
    rw [← f.activeAov_collectUnused, h, g.activeAov_collectUnused]
  names := by
    have hnames := congrArg (fun f => f.aovs.names) h
    simpa only [collectUnused, NameTable.names_mapEntries] using hnames
  hasOutputs := (congrArg Frame.hasOutputs h :)

theorem aovBase_collectUnused (f : Frame) (name : String) (format : PixelFormat)
    (background : Rgba) :
    f.collectUnused.aovBase name format background = f.aovBase name format background := by
  rw [aovBase, liveLayer, activeAov_collectUnused]
  rfl

/-- Collection has no influence on what is reported about a frame. -/
theorem validate_collectUnused (f : Frame) : f.collectUnused.validate = f.validate := by
  refine congrArg₂ bind rfl (funext fun _ => congrArg₂ bind rfl (funext fun _ => ?_))
  apply forM_map_congr
  rintro ⟨name, a⟩ _
  cases hactive : a.active with
  | false => simp [Aov.collectUnused, hactive]
  | true =>
      simp only [Aov.collectUnused, hactive, if_true]
      rfl

theorem check_collectUnused (dst src : Frame) : dst.collectUnused.check src = dst.check src := by
  rw [check, check, validate_collectUnused]
  rfl

theorem collectUnused_sound {f : Frame} (hf : f.Sound) : f.collectUnused.Sound :=
  edit_sound hf .collectUnused

end Frame

def Exchange.collectUnused (x : Exchange) : Exchange :=
  ⟨x.dst.collectUnused, x.report.collectUnused⟩

theorem Exchange.view_collectUnused (x : Exchange) (name : String) :
    x.collectUnused.view (.aov name)
      = ((x.view (.aov name)).1.map Aov.collectUnused,
        (x.view (.aov name)).2.map AovChange.collectUnused) :=
  Prod.ext (x.dst.findAov_collectUnused name) (x.report.findAov_collectUnused name)

namespace Frame

section Merges

variable {src dst : Frame} {x y z : Exchange}

theorem Joins.collectUnused (hjoins : dst.Joins src) : dst.collectUnused.Joins src where
  sound := collectUnused_sound hjoins.sound
  fits := by
    have hvalid := (validate_collectUnused dst).trans (validate_of_fits hjoins.fits)
    exact (validate_eq_ok_iff (collectUnused_sound hjoins.sound)).1 hvalid
  width_eq := hjoins.width_eq
  height_eq := hjoins.height_eq
  source := hjoins.source

/-- After a merge no more is left of a collection before it than a collection afterwards would
remove. -/
theorem Merges.collected (hm : src.Merges x y) (hjoins : x.dst.Joins src)
    (hcollected : src.Merges x.collectUnused z) : z.collectUnused = y.collectUnused := by
  have hjoins' : x.collectUnused.dst.Joins src := hjoins.collectUnused
  apply Exchange.ext_view
  · have houtputs : z.dst.hasOutputs = y.dst.hasOutputs := by
      rw [Bool.eq_iff_iff, hcollected.hasOutputs_iff, hm.hasOutputs_iff]
    simp only [Exchange.header, Exchange.collectUnused, Frame.collectUnused,
      ChangeSet.collectUnused, houtputs, ExchangeHeader.mk.injEq]
    exact ⟨hcollected.width_eq.trans hm.width_eq.symm, hcollected.height_eq.trans hm.height_eq.symm,
      trivial, hcollected.sized.trans hm.sized.symm,
      hcollected.reportWidth_eq.trans hm.reportWidth_eq.symm,
      hcollected.reportHeight_eq.trans hm.reportHeight_eq.symm⟩
  · intro part
    cases part with
    | beauty => exact (hcollected.view_eq .beauty).trans (hm.view_eq .beauty).symm
    | aux k => exact (hcollected.aux_eq hjoins' k).trans (hm.aux_eq hjoins k).symm
    | aov name =>
        rw [Exchange.view_collectUnused, Exchange.view_collectUnused]
        rcases src.activeAov_cases name with ha | ⟨a, target, ha, hs⟩ | ⟨a, s, ha, hs⟩
        · rw [hm.aov_inactive ha, hcollected.aov_inactive ha, Exchange.collectUnused,
            findAov_collectUnused, ChangeSet.findAov_collectUnused]
          simp [Function.comp_def, Aov.deactivate_collectUnused,
            AovChange.deactivate_collectUnused]
        · rw [hm.aov_reference ha hs, hcollected.aov_reference ha hs, Exchange.collectUnused,
            findAov_collectUnused]
          cases x.dst.findAov name with
          | none => rfl
          | some held => simp [Aov.setupReference_collectUnused]
        · rw [hm.aov_pixels hjoins ha hs, hcollected.aov_pixels hjoins' ha hs]
          simp [Exchange.collectUnused, aovBase_collectUnused]

end Merges

end Frame

namespace Accumulator

/-- An accumulator at work: the destination of its merges and their change set. -/
structure Session where
  accumulator : Accumulator
  dst : Frame
  report : ChangeSet

inductive Event where
  | merge (src : Frame) (coarse : Bool)
  | collectFrame
  | collectChanges

def Event.isMerge : Event → Bool
  | .merge _ _ => true
  | _ => false

def Merged.session (m : Merged) : Session := ⟨m.accumulator, m.dst, m.report⟩

namespace Session

/-- Events one after another. Returns what each merge has left behind. -/
def run : List Event → Session → Except Fault (List Merged)
  | [], _ => .ok []
  | .merge src coarse :: rest, s => do
      let m ← s.accumulator.merge src s.dst s.report coarse
      return m :: (← run rest m.session)
  | .collectFrame :: rest, s => run rest { s with dst := s.dst.collectUnused }
  | .collectChanges :: rest, s => run rest { s with report := s.report.collectUnused }

def collected (s : Session) : Session :=
  ⟨s.accumulator, s.dst.collectUnused, s.report.collectUnused⟩

end Session

/-- Two merges have left behind the same, except for what is not in use. -/
structure Merged.Agrees (m n : Merged) : Prop where
  answer : m.answer = n.answer
  accumulator : m.accumulator = n.accumulator
  dst : m.dst.Agrees n.dst
  report : m.report.Agrees n.report

theorem Merged.agrees_of_collected {m n : Merged} (hanswer : m.answer = n.answer)
    (hsession : m.session.collected = n.session.collected) : m.Agrees n := by
  obtain ⟨haccumulator, hdst, hreport⟩ := Session.mk.inj hsession
  exact ⟨hanswer, haccumulator, Frame.agrees_of_collected hdst,
    ChangeSet.agrees_of_collected hreport⟩

section Run

variable {src : Frame} {s t : Session}

/-- A merge does the same after a collection as without it, up to a collection afterwards. -/
theorem merge_collected (hsrc : src.Sound) (hs : s.dst.Sound) (coarse : Bool) :
    ∃ m n, s.accumulator.merge src s.dst s.report coarse = .ok m ∧
      s.accumulator.merge src s.collected.dst s.collected.report coarse = .ok n ∧
      m.answer = n.answer ∧ m.session.collected = n.session.collected := by
  obtain ⟨a, dst, report⟩ := s
  have hcheck : dst.collectUnused.check src = dst.check src := dst.check_collectUnused src
  cases hrefused : dst.check src with
  | error e =>
      rw [hrefused] at hcheck
      refine ⟨_, _, Frame.merge_of_check_eq_error a report coarse hrefused,
        Frame.merge_of_check_eq_error a report.collectUnused coarse hcheck, rfl, ?_⟩
      simp only [Merged.session, Session.collected, Frame.collectUnused_collectUnused,
        ChangeSet.collectUnused_collectUnused]
  | ok =>
      have hjoins := Frame.joins_of_check hs hsrc hrefused
      obtain ⟨y, hy, hm⟩ := Frame.absorb_eq_ok hjoins report a.recorder coarse
      obtain ⟨z, hz, hm'⟩ :=
        Frame.absorb_eq_ok hjoins.collectUnused report.collectUnused a.recorder coarse
      obtain ⟨hdst, hreport⟩ := Exchange.mk.inj (hm.collected hjoins hm')
      have hagrees := ChangeSet.agrees_of_collected hreport
      have hmasks : ∀ part, y.report.mask? part = z.report.mask? part := by
        intro part
        rw [← y.report.mask?_collectUnused, ← hreport, z.report.mask?_collectUnused]
      have htally := (hm.counts hjoins).unique (hm'.counts hjoins.collectUnused) fun part =>
        congrArg (Option.map PixelMask.card) (hmasks part)
      refine ⟨_, _, bind_eq_ok.2 ⟨_, hy, rfl⟩, bind_eq_ok.2 ⟨_, hz, rfl⟩, ?_, ?_⟩
      · exact congrArg Except.ok htally
      · simp only [Merged.session, Session.collected, hdst, hreport, hagrees.beauty]

/-- Merges in sessions that differ by collections do the same. -/
theorem merge_agrees (hsrc : src.Sound) (hs : s.dst.Sound) (ht : t.dst.Sound)
    (hsame : s.collected = t.collected) (coarse : Bool) :
    ∃ m n, s.accumulator.merge src s.dst s.report coarse = .ok m ∧
      t.accumulator.merge src t.dst t.report coarse = .ok n ∧ m.Agrees n ∧
      m.session.collected = n.session.collected := by
  -- both sessions do what the one session after a collection does
  obtain ⟨m, m', hm, hm', hanswer, hsession⟩ := merge_collected hsrc hs coarse
  obtain ⟨n, n', hn, hn', hanswer', hsession'⟩ := merge_collected hsrc ht coarse
  have haccumulator : s.accumulator = t.accumulator :=
    (congrArg Session.accumulator hsame :)
  rw [hsame, haccumulator] at hm'
  obtain rfl := Except.ok.inj (hm'.symm.trans hn')
  have hboth := hsession.trans hsession'.symm
  exact ⟨m, n, hm, hn, Merged.agrees_of_collected (hanswer.trans hanswer'.symm) hboth, hboth⟩

/-- Two runs from sessions that differ by collections, with the collections left out in one. -/
theorem run_agrees (events : List Event)
    (hevents : ∀ src coarse, .merge src coarse ∈ events → src.Sound) (hs : s.dst.Sound)
    (ht : t.dst.Sound) (hsame : s.collected = t.collected) :
    ∃ plain collecting, s.run (events.filter Event.isMerge) = .ok plain ∧
      t.run events = .ok collecting ∧ plain.length = (events.filter Event.isMerge).length ∧
        List.Forall₂ Merged.Agrees plain collecting := by
  induction events generalizing s t with
  | nil => exact ⟨[], [], rfl, rfl, rfl, .nil⟩
  | cons e rest ih =>
      have hrest := fun src coarse hmem => hevents src coarse (List.mem_cons_of_mem e hmem)
      cases e with
      | merge src coarse =>
          have hsrc := hevents src coarse List.mem_cons_self
          obtain ⟨m, n, hm, hn, hagrees, hsession⟩ := merge_agrees hsrc hs ht hsame coarse
          obtain ⟨plain, collecting, hplain, hcollecting, hlength, hall⟩ := ih hrest
            (s := m.session) (t := n.session) (Frame.merge_sound hsrc hs hm)
            (Frame.merge_sound hsrc ht hn) hsession
          refine ⟨m :: plain, n :: collecting, ?_, ?_, congrArg (· + 1) hlength,
            .cons hagrees hall⟩
          · exact bind_eq_ok.2 ⟨m, hm, bind_eq_ok.2 ⟨plain, hplain, rfl⟩⟩
          · exact bind_eq_ok.2 ⟨n, hn, bind_eq_ok.2 ⟨collecting, hcollecting, rfl⟩⟩
      -- a collection is a step of one run only, and keeps the two alike
      | collectFrame =>
          refine ih hrest (t := { t with dst := t.dst.collectUnused }) hs
            (Frame.collectUnused_sound ht) ?_
          rw [hsame, Session.collected, Session.collected, Frame.collectUnused_collectUnused]
      | collectChanges =>
          refine ih hrest (t := { t with report := t.report.collectUnused }) hs ht ?_
          rw [hsame, Session.collected, Session.collected, ChangeSet.collectUnused_collectUnused]

/-- Collection is unobservable to merging. A run of merges into a destination, and the run of the
same merges with collections of the destination and of the change set between them, both succeed
with one result for each merge, and the results agree one by one. -/
theorem collect_unobservable {dst : Frame} (hdst : dst.Reached) (a : Accumulator)
    (report : ChangeSet) (events : List Event)
    (hevents : ∀ src coarse, .merge src coarse ∈ events → src.Reached) :
    ∃ plain collecting,
      (Session.mk a dst report).run (events.filter Event.isMerge) = .ok plain ∧
        (Session.mk a dst report).run events = .ok collecting ∧
        plain.length = (events.filter Event.isMerge).length ∧
        List.Forall₂ Merged.Agrees plain collecting :=
  run_agrees events (fun src coarse hmem => (hevents src coarse hmem).sound) hdst.sound hdst.sound
    rfl

/-- Merges between which a named output goes out of use and comes back, collected in the meantime.
-/
def reopening : List Event :=
  [.merge Frame.depthFrame false, .merge (.new 2 2) false, .collectFrame, .collectChanges,
    .merge Frame.openFrame false]

theorem reopening_reached (src : Frame) (coarse : Bool) (hmem : .merge src coarse ∈ reopening) :
    src.Reached := by
  have hopen : Frame.openFrame.Reached := (Frame.Reached.new 2 2).edit _
  simp only [reopening, List.mem_cons, Event.merge.injEq, reduceCtorEq, List.not_mem_nil, false_or,
    or_false] at hmem
  rcases hmem with ⟨rfl, -⟩ | ⟨rfl, -⟩ | ⟨rfl, -⟩
  · exact hopen.edit _
  · exact .new 2 2
  · exact hopen

theorem collect_unobservable_of_reopening :
    ∃ plain collecting,
      (Session.mk ⟨default, .new⟩ (.new 2 2) .new).run (reopening.filter Event.isMerge)
          = .ok plain ∧
        (Session.mk ⟨default, .new⟩ (.new 2 2) .new).run reopening = .ok collecting ∧
        plain.length = 3 ∧ List.Forall₂ Merged.Agrees plain collecting :=
  collect_unobservable (.new 2 2) ⟨default, .new⟩ .new reopening reopening_reached

end Run

end Accumulator

end RenderFold
