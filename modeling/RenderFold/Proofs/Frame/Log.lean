/-
What the recorder of an accumulator says about its merges.

Over any calls the recorder is a log: it gains one entry for each merge that succeeds while the
switch is on, and nothing else. A merge adds to the mask of its destination just what it reports as
changed (`Layer.union_changes`). So a log without gaps, united mask by mask, is the mask of the
frame that all those merges went to (`Feeds.unite`, by induction on the calls).
-/
import RenderFold.Proofs.Frame.Fold
import RenderFold.Proofs.Layer.Delta
import RenderFold.Proofs.Recorder.Archive

namespace RenderFold

namespace PixelMask

/-- The union with another mask, if that has the same size. -/
def unite? (m other : PixelMask) : Option PixelMask :=
  if (m.union other).1 then some (m.union other).2 else none

theorem unite?_eq_some {m other united : PixelMask} (hunion : m.union other = (true, united)) :
    m.unite? other = some united := by
  simp [unite?, hunion]

end PixelMask

/-- A merge that succeeds is recorded, a refused one is not. -/
theorem Frame.recorder_of_absorb {dst src : Frame} {report : ChangeSet} {recorder : Recorder}
    {coarse : Bool} {done : Absorbed} (hdone : dst.absorb src report recorder coarse = .ok done) :
    done.recorder
      = match done.answer with
        | .ok _ => (recorder.add done.report.beauty coarse).2
        | .error _ => recorder := by
  unfold absorb at hdone
  cases hcheck : dst.check src with
  | error e =>
      rw [hcheck] at hdone
      cases hdone
      rfl
  | ok =>
      rw [hcheck] at hdone
      obtain ⟨x, -, hdone⟩ := bind_eq_ok.1 hdone
      obtain ⟨⟨answers, y⟩, -, hdone⟩ := bind_eq_ok.1 hdone
      cases htally : Tally.ofAnswers answers with
      | error e =>
          simp only [htally] at hdone
          cases hdone
          rfl
      | ok tally =>
          simp only [htally] at hdone
          cases hdone
          rfl

namespace Accumulator

/-! ### Calls -/

/-- A call on an accumulator. A merge carries what it left behind. -/
inductive Call where
  | start
  | stop
  | merge (src dst : Frame) (report : ChangeSet) (coarse : Bool) (done : Merged)

namespace Call

/-- What a call sets the switch of the recorder to. -/
def switch? : Call → Option Bool
  | .start => some true
  | .stop => some false
  | .merge .. => none

/-- What is to be recorded of a call: of a merge that succeeded, the pixels of beauty in its change
set. -/
def offer? : Call → Option RecordEntry
  | .merge _ _ _ coarse ⟨.ok _, _, _, report⟩ => some ⟨report.beauty, coarse⟩
  | _ => none

end Call

/-- What a call does. Any frames that callers can build may be merged, with any change set. -/
inductive Step (a : Accumulator) : Call → Accumulator → Prop where
  | start : Step a .start { a with recorder := a.recorder.start }
  | stop : Step a .stop { a with recorder := a.recorder.stop }
  | merge {src dst : Frame} {report : ChangeSet} {coarse : Bool} {done : Merged}
      (hsrc : src.Reached) (hdst : dst.Reached)
      (hmerge : a.merge src dst report coarse = .ok done) :
      Step a (.merge src dst report coarse done) done.accumulator

inductive Run (a : Accumulator) : List Call → Accumulator → Prop where
  | nil : Run a [] a
  | snoc {calls : List Call} {c : Call} {b d : Accumulator} (hrun : Run a calls b)
      (hstep : Step b c d) : Run a (calls ++ [c]) d

/-- What a recorder is to hold after some calls: the merges that succeeded while its switch was
on. -/
def logged (on : Bool) (calls : List Call) : List RecordEntry :=
  heard Call.offer? (tagged Call.switch? on calls)

/-- All merges that succeeded were made while the switch was on. -/
def Gapless (on : Bool) (calls : List Call) : Prop :=
  ∀ c ∈ tagged Call.switch? on calls, c.2.offer?.isSome = true → c.1 = true

/-! ### The log -/

theorem logged_concat (on : Bool) (calls : List Call) (c : Call) :
    logged on (calls ++ [c])
      = logged on calls ++ if switched Call.switch? on calls then c.offer?.toList else [] := by
  unfold logged
  rw [tagged_concat, heard_concat]

theorem Step.recorder_eq {a b : Accumulator} {c : Call} (hstep : Step a c b) :
    b.recorder.active = c.switch?.getD a.recorder.active ∧
      b.recorder.entries
        = a.recorder.entries ++ if a.recorder.active then c.offer?.toList else [] := by
  cases hstep with
  | start => simp [Call.switch?, Call.offer?, Recorder.start]
  | stop => simp [Call.switch?, Call.offer?, Recorder.stop]
  | @merge src dst report coarse done _ _ hmerge =>
      obtain ⟨absorbed, habsorb, hresult⟩ := bind_eq_ok.1 hmerge
      obtain rfl := Except.ok.inj hresult
      have hrecorder := Frame.recorder_of_absorb habsorb
      cases hanswer : absorbed.answer with
      | ok tally =>
          simp only [hanswer] at hrecorder
          cases hactive : a.recorder.active <;>
            simp [Call.switch?, Call.offer?, hrecorder, Recorder.add, hactive]
      | error e =>
          simp only [hanswer] at hrecorder
          simp [Call.switch?, Call.offer?, hrecorder]

theorem Run.recorder_eq {a b : Accumulator} {calls : List Call} (hrun : Run a calls b) :
    b.recorder.active = switched Call.switch? a.recorder.active calls ∧
      b.recorder.entries = a.recorder.entries ++ logged a.recorder.active calls := by
  induction hrun with
  | nil => exact ⟨rfl, (List.append_nil _).symm⟩
  | @snoc calls c b d _ hstep ih =>
      obtain ⟨hactive, hentries⟩ := hstep.recorder_eq
      constructor
      · rw [hactive, ih.1, switched_concat]
      · rw [hentries, ih.1, ih.2, logged_concat, List.append_assoc]

/-- Without gaps the log is what the merges have reported. -/
theorem Gapless.logged_eq {on : Bool} {calls : List Call} (h : Gapless on calls) :
    logged on calls = calls.filterMap Call.offer? := by
  induction calls generalizing on with
  | nil => rfl
  | cons c rest ih =>
      have hrest : logged ((c.switch?).getD on) rest = rest.filterMap Call.offer? :=
        ih fun d hd => h d (List.mem_cons_of_mem _ hd)
      have hfirst : c.offer?.isSome = true → on = true := h (on, c) List.mem_cons_self
      rw [List.filterMap_cons, ← hrest]
      cases hc : c.offer? with
      | none => cases on <;> simp [logged, tagged, heard, hc]
      | some e =>
          obtain rfl := hfirst (by simp [hc])
          simp [logged, tagged, heard, hc]

/-! ### One destination -/

/-- What some calls make of one frame, which is the destination of all merges that succeeded. -/
inductive Feeds (f : Frame) : List Call → Frame → Prop where
  | nil : Feeds f [] f
  | into {calls : List Call} {dst : Frame} (src : Frame) (report : ChangeSet) (coarse : Bool)
      (done : Merged) (hfeeds : Feeds f calls dst) :
      Feeds f (calls ++ [.merge src dst report coarse done]) done.dst
  | elsewhere {calls : List Call} {c : Call} {dst : Frame} (hfeeds : Feeds f calls dst)
      (hc : c.offer? = none) : Feeds f (calls ++ [c]) dst

/-- A merge of frames that callers can build, made with some accumulator. -/
def Call.Genuine : Call → Prop
  | .merge src dst report coarse done =>
      src.Reached ∧ dst.Reached ∧ ∃ a : Accumulator, a.merge src dst report coarse = .ok done
  | _ => True

theorem Run.genuine {a b : Accumulator} {calls : List Call} (hrun : Run a calls b) :
    ∀ c ∈ calls, c.Genuine := by
  induction hrun with
  | nil =>
      intro c hc
      cases hc
  | @snoc calls c b d _ hstep ih =>
      intro k hk
      rcases List.mem_append.1 hk with hk | hk
      · exact ih k hk
      · obtain rfl := List.mem_singleton.1 hk
        cases hstep with
        | start => trivial
        | stop => trivial
        | merge hsrc hdst hmerge => exact ⟨hsrc, hdst, b, hmerge⟩

/-- A merge adds to the mask of its destination what it reports, and nothing if it is refused. -/
theorem Call.Genuine.unite {src dst : Frame} {report : ChangeSet} {coarse : Bool} {done : Merged}
    (hc : (Call.merge src dst report coarse done).Genuine) :
    (Call.merge src dst report coarse done).offer?.toList.foldlM
      (fun m e => m.unite? e.pixels) dst.beauty.mask = some done.dst.beauty.mask := by
  obtain ⟨hsrc, hdst, a, hmerge⟩ := hc
  rcases done with ⟨e | tally, b, dst', report'⟩
  · obtain ⟨m, hm, -, hkeep⟩ := Frame.merge_answer hsrc.sound hdst.sound a report coarse
    obtain rfl := Except.ok.inj (hm.symm.trans hmerge)
    obtain ⟨-, -, rfl, -⟩ := Merged.mk.inj (hkeep e rfl)
    rfl
  · obtain ⟨hjoins, hmerges⟩ := merges_of_merge hdst.sound hmerge
    obtain ⟨hmerged, hreported⟩ := hmerges.beauty_eq
    have hunion := Layer.union_changes (hjoins.fits .beauty) (hjoins.source .beauty)
    rw [← hmerged, ← hreported] at hunion
    simp [Call.offer?, PixelMask.unite?_eq_some hunion]

theorem offers_concat (calls : List Call) (c : Call) :
    (calls ++ [c]).filterMap Call.offer? = calls.filterMap Call.offer? ++ c.offer?.toList := by
  cases hc : c.offer? <;> simp [hc]

/-- The masks that the merges into a new frame have reported make up its mask. -/
theorem Feeds.unite {w h : UInt32} {calls : List Call} {dst : Frame}
    (hfeeds : Feeds (.new w h) calls dst) (hgenuine : ∀ c ∈ calls, c.Genuine) :
    (calls.filterMap Call.offer?).foldlM (fun m e => m.unite? e.pixels) (.blank w h)
      = some dst.beauty.mask := by
  induction hfeeds with
  | nil =>
      rw [Frame.new_beauty]
      rfl
  | @into calls dst src report coarse done _ ih =>
      have hbefore := ih fun c hc => hgenuine c (List.mem_append_left _ hc)
      have hlast := (hgenuine _ (List.mem_append_right calls (List.mem_singleton.2 rfl))).unite
      rw [offers_concat, List.foldlM_append, hbefore]
      exact hlast
  | @elsewhere calls c dst _ hc ih =>
      have hbefore := ih fun k hk => hgenuine k (List.mem_append_left _ hk)
      rw [offers_concat, hc]
      simpa using hbefore

/-- The recorder is a faithful log. Merges never fault, and over any calls it gains, in their order,
the changed pixels of beauty and the pass of each merge that succeeded while the switch was on, and
nothing else. If the log has no gaps and all merges that succeeded went to one frame, new at first,
the recorded masks can be united one after another, and make up the mask of that frame. -/
theorem run_logs {a b : Accumulator} {calls : List Call} (hrun : Run a calls b) :
    (∀ (src dst : Frame) (report : ChangeSet) (coarse : Bool), src.Reached → dst.Reached →
        ∃ done, b.merge src dst report coarse = .ok done) ∧
      b.recorder.entries = a.recorder.entries ++ logged a.recorder.active calls ∧
      ∀ (w h : UInt32) (dst : Frame), a.recorder.entries = [] →
        Gapless a.recorder.active calls → Feeds (.new w h) calls dst →
        b.recorder.entries.foldlM (fun m e => m.unite? e.pixels) (PixelMask.blank w h)
          = some dst.beauty.mask := by
  obtain ⟨-, hentries⟩ := hrun.recorder_eq
  refine ⟨?_, hentries, ?_⟩
  · intro src dst report coarse hsrc hdst
    obtain ⟨done, hdone, -⟩ := Frame.merge_answer hsrc.sound hdst.sound b report coarse
    exact ⟨done, hdone⟩
  · intro w h dst hempty hgapless hfeeds
    rw [hentries, hempty, List.nil_append, hgapless.logged_eq]
    exact hfeeds.unite hrun.genuine

end Accumulator

namespace Frame

def dotFrame : Frame := (new 1 1).edit (.beauty (.setPixel 0 0 #v[4, 3, 2, 1] 5))

theorem dotFrame_fits : dotFrame.Fits 1 1 :=
  (validate_eq_ok_iff ((Reached.new 1 1).edit _).sound).1 rfl

end Frame

namespace Accumulator

def recordingAccumulator : Accumulator := ⟨default, ⟨true, []⟩⟩

/-- What is left by a merge of one pixel into four. -/
def refusedDot : Merged :=
  ⟨.error (.sizes ⟨1, 1⟩ ⟨2, 2⟩), recordingAccumulator, .new 2 2, .new⟩

/-- Calls that record two merges, of which the first one is refused. -/
def dotCalls (done : Merged) : List Call :=
  [.start, .merge Frame.dotFrame (.new 2 2) .new true refusedDot,
    .merge Frame.dotFrame (.new 1 1) .new false done, .stop]

/-- The merge that succeeds is recorded, and its mask is that of the destination. -/
theorem run_logs_of_dot :
    ∃ tally b d dst report,
      Run ⟨default, .new⟩ (dotCalls ⟨.ok tally, b, dst, report⟩) d ∧
      d.recorder = ⟨false, [⟨report.beauty, false⟩]⟩ ∧
      (PixelMask.blank 1 1).unite? report.beauty = some dst.beauty.mask := by
  have hdot : Frame.dotFrame.Reached := (Frame.Reached.new 1 1).edit _
  have hjoins : (Frame.new 1 1).Joins Frame.dotFrame :=
    ⟨Frame.new_sound 1 1, Frame.new_fits 1 1, rfl, rfl, Frame.dotFrame_fits⟩
  have hrefused : recordingAccumulator.merge Frame.dotFrame (.new 2 2) .new true = .ok refusedDot :=
    Frame.merge_of_check_eq_error recordingAccumulator .new true rfl
  obtain ⟨tally, b, dst, report, hmerge⟩ :=
    exists_merge_of_joins hjoins recordingAccumulator .new false
  have hstarted := (Run.nil (a := ⟨default, .new⟩)).snoc .start
  have hmerged := (hstarted.snoc (.merge hdot (.new 2 2) hrefused)).snoc
    (.merge hdot (.new 1 1) hmerge)
  have hrun := hmerged.snoc .stop
  have hfeeds := (((Feeds.nil (f := .new 1 1)).elsewhere (c := .start) rfl).elsewhere
    (c := .merge Frame.dotFrame (.new 2 2) .new true refusedDot) rfl).into
    Frame.dotFrame .new false ⟨.ok tally, b, dst, report⟩
  have hfed := hfeeds.elsewhere (c := .stop) rfl
  have hgapless : Gapless false (dotCalls ⟨.ok tally, b, dst, report⟩) := by
    simp [Gapless, dotCalls, tagged, Call.switch?, Call.offer?]
  simp only [List.nil_append, List.cons_append] at hrun hfed
  obtain ⟨-, hentries, hmask⟩ := run_logs hrun
  have hunited := hmask 1 1 dst rfl hgapless hfed
  have hlogged : b.recorder.entries = [⟨report.beauty, false⟩] := hentries
  refine ⟨tally, b, _, dst, report, hrun, ?_, ?_⟩
  · exact congrArg (Recorder.mk false) hlogged
  · simpa [Recorder.stop, hlogged] using hunited

end Accumulator

end RenderFold
