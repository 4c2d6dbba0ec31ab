/-
A recorder and its files over many calls.

`Run` is a sequence of calls on one recorder, each with its answer. What the recorder holds then is
read off the calls alone (`pending`): the entries that were offered while the switch was on, since
the entries were last dropped. One step adds to both alike. A dump succeeds exactly if the recorder
is `Dumpable`, which is judged before the file is touched. The file keeps the record for as long as
no dump goes to its path, since a step writes nowhere else.
-/
import Mathlib.Data.List.DropRight
import RenderFold.Proofs.NameTable
import RenderFold.Proofs.Recorder.Canonical
import RenderFold.Recorder.File

namespace RenderFold

/-! ### A switch that is set by some of the calls -/

section Switch

variable {α : Type} (switch? : α → Option Bool)

/-- What a switch shows after some calls: what it was set to last. -/
def switched (on : Bool) (calls : List α) : Bool :=
  calls.foldl (fun on c => (switch? c).getD on) on

/-- Each call with what the switch showed before it. -/
def tagged : (on : Bool) → List α → List (Bool × α)
  | _, [] => []
  | on, c :: rest => (on, c) :: tagged ((switch? c).getD on) rest

theorem switched_concat (on : Bool) (calls : List α) (c : α) :
    switched switch? on (calls ++ [c]) = (switch? c).getD (switched switch? on calls) :=
  List.foldl_append

theorem tagged_concat (on : Bool) (calls : List α) (c : α) :
    tagged switch? on (calls ++ [c])
      = tagged switch? on calls ++ [(switched switch? on calls, c)] := by
  induction calls generalizing on with
  | nil => rfl
  | cons head rest ih =>
      simp only [List.cons_append, tagged, ih]
      rfl

variable {β : Type} (offer? : α → Option β)

/-- What the calls offer that were made while the switch was on. -/
def heard (calls : List (Bool × α)) : List β :=
  (calls.filter fun c => c.1).filterMap fun c => offer? c.2

theorem heard_concat (calls : List (Bool × α)) (on : Bool) (c : α) :
    heard offer? (calls ++ [(on, c)])
      = heard offer? calls ++ if on then (offer? c).toList else [] := by
  cases on with
  | true => cases hc : offer? c <;> simp [heard, hc]
  | false => simp [heard]

end Switch

namespace Recorder

/-! ### Calls -/

structure Desk where
  recorder : Recorder
  files : FileStore

/-- A call on a recorder. Those that touch files carry their answers. -/
inductive Call where
  | start
  | stop
  | reset
  | add (pixels : PixelMask) (coarse : Bool)
  | dump (base : String) (answer : Except MergeError String)
  | load (base : String) (answer : Except MergeError Recorder)

namespace Call

/-- What a call sets the switch of the recorder to. -/
def switch? : Call → Option Bool
  | .start => some true
  | .stop => some false
  | _ => none

def offer? : Call → Option RecordEntry
  | .add pixels coarse => some ⟨pixels, coarse⟩
  | _ => none

/-- Whether a call drops the entries: a reset, or a dump that succeeded. -/
def clears : Call → Bool
  | .reset => true
  | .dump _ (.ok _) => true
  | _ => false

end Call

def Desk.dump (d : Desk) (base : String) : Desk :=
  ⟨(d.recorder.dump base d.files).recorder, (d.recorder.dump base d.files).files⟩

def Desk.dumpAnswer (d : Desk) (base : String) : Except MergeError String :=
  (d.recorder.dump base d.files).answer

/-- What a call does. Loading makes another recorder and leaves this one alone. -/
inductive Step (d : Desk) : Call → Desk → Prop where
  | start : Step d .start { d with recorder := d.recorder.start }
  | stop : Step d .stop { d with recorder := d.recorder.stop }
  | reset : Step d .reset { d with recorder := d.recorder.reset }
  | add (pixels : PixelMask) (coarse : Bool) :
      Step d (.add pixels coarse) { d with recorder := (d.recorder.add pixels coarse).2 }
  | dump (base : String) : Step d (.dump base (d.dumpAnswer base)) (d.dump base)
  | load (base : String) : Step d (.load base (load base d.files)) d

/-- The recorder has fewer entries than a record can count. -/
def Desk.Countable (d : Desk) : Prop := d.recorder.entries.length < 0x100000000

instance (d : Desk) : Decidable d.Countable := inferInstanceAs (Decidable (_ < _))

/-- Calls that lead from one desk to another, with a countable record at any time. -/
inductive Run (a : Desk) : List Call → Desk → Prop where
  | nil (hcount : a.Countable) : Run a [] a
  | snoc {calls : List Call} {c : Call} {d e : Desk} (hrun : Run a calls d) (hstep : Step d c e)
      (hcount : e.Countable) : Run a (calls ++ [c]) e

theorem Run.countable {a d : Desk} {calls : List Call} (hrun : Run a calls d) : d.Countable := by
  cases hrun with
  | nil hcount => exact hcount
  | snoc _ _ hcount => exact hcount

/-! ### Dumps -/

/-- What is asked of a recorder whose record is to be written. -/
structure Dumpable (r : Recorder) : Prop where
  idle : r.active = false
  nonempty : r.entries ≠ []
  sides : ∀ e ∈ r.entries, e.pixels.width ≤ 32768 ∧ e.pixels.height ≤ 32768

section Dump

variable {r : Recorder}

theorem Dumpable.sidesFit (hr : r.Dumpable) :
    ∀ e ∈ r.entries, sidesFit e.pixels.width e.pixels.height = true := fun e he =>
  sidesFit_iff.2 (hr.sides e he)

theorem checkEntries_error (index : Nat) {todo : List RecordEntry}
    (hsides : ¬∀ e ∈ todo, e.pixels.width ≤ 32768 ∧ e.pixels.height ≤ 32768) :
    ∃ cause, checkEntries index todo = .error (.invalid cause) := by
  induction todo generalizing index with
  | nil => exact absurd nofun hsides
  | cons e rest ih =>
      by_cases he : sidesFit e.pixels.width e.pixels.height = true
      · have hrest : ¬∀ d ∈ rest, d.pixels.width ≤ 32768 ∧ d.pixels.height ≤ 32768 :=
          fun hall => hsides (List.forall_mem_cons.2 ⟨sidesFit_iff.1 he, hall⟩)
        simpa only [checkEntries, if_pos he] using ih (index + 1) hrest
      · exact ⟨_, if_neg he⟩

theorem Dumpable.checkDump_eq (hr : r.Dumpable) : r.checkDump = .ok () := by
  have hnonempty : r.entries.isEmpty = false := List.isEmpty_eq_false_iff.2 hr.nonempty
  have hcheck := checkEntries_eq_ok 0 hr.sidesFit
  simp only [checkDump, hr.idle, hnonempty, hcheck]
  rfl

theorem checkDump_error (hr : ¬r.Dumpable) : ∃ cause, r.checkDump = .error (.invalid cause) := by
  unfold checkDump
  cases hactive : r.active with
  | true => exact ⟨_, rfl⟩
  | false =>
      cases hempty : r.entries.isEmpty with
      | true => exact ⟨_, rfl⟩
      | false =>
          refine checkEntries_error 0 fun hsides => hr ?_
          exact ⟨hactive, List.isEmpty_eq_false_iff.1 hempty, hsides⟩

/-- What cannot be dumped is refused before a file is touched, whatever holds the files. -/
theorem dump_refused {σ : Type} [FileSystem σ] (hr : ¬r.Dumpable) (base : String) (fs : σ) :
    ∃ cause, r.dump base fs = ⟨.error (.invalid cause), r, fs⟩ := by
  obtain ⟨cause, hcause⟩ := checkDump_error hr
  exact ⟨cause, by rw [dump, hcause]⟩

theorem save_eq (path : String) (fs : FileStore) :
    r.save path fs = (r.encode.map fun _ => (), fs.put path r.emitted) := by
  simp only [save, FileSystem.create, FileSystem.append, NameTable.get?_put, if_true,
    Option.getD_some, List.nil_append, NameTable.put_put]
  cases r.encode <;> rfl

/-- The file of a dump holds the record as it is encoded. -/
theorem Dumpable.dump_eq (hr : r.Dumpable) (hcount : r.entries.length < 0x100000000)
    (base : String) (fs : FileStore) :
    r.dump base fs
      = ⟨.ok (filePath base), r.reset, fs.put (filePath base) (recordBytes r.entries)⟩ := by
  have hemitted : r.emitted = recordBytes r.entries := if_pos hcount
  rw [dump, hr.checkDump_eq, save_eq, encode_eq_ok hcount hr.sidesFit, hemitted]
  rfl

/-- Too many entries are found when the file is created already: the magic word is left in it. -/
theorem Dumpable.dump_of_uncountable (hr : r.Dumpable) (hmany : 0x100000000 ≤ r.entries.length)
    (base : String) (fs : FileStore) :
    r.dump base fs
      = ⟨.error (.invalid (.uncountable r.entries.length)), r, fs.put (filePath base) magic⟩ := by
  have hmany' : ¬r.entries.length < range32 := Nat.not_lt.2 hmany
  have hemitted : r.emitted = magic := if_neg hmany'
  have hencode : r.encode = .error (.invalid (.uncountable r.entries.length)) := by
    rw [encode, checkEntries_eq_ok 0 hr.sidesFit]
    exact if_neg hmany'
  rw [dump, hr.checkDump_eq, save_eq, hencode, hemitted]
  rfl

/-- A file with a record in it is loaded into an idle recorder. -/
theorem load_of_get? {written : List RecordEntry} (hcount : written.length < 0x100000000)
    (hsides : ∀ e ∈ written, sidesFit e.pixels.width e.pixels.height = true) {base : String}
    {fs : FileStore} (hfile : fs.get? (filePath base) = some (recordBytes written)) :
    load base fs = .ok ⟨false, written⟩ := by
  have hdecode := decode_of_isRecord (isRecord_recordBytes hcount hsides)
  have hentries : (written.map listing).map Listing.entry = written := by
    rw [List.map_map]
    exact List.map_id'' listing_entry written
  rw [hentries] at hdecode
  simp only [load, FileSystem.read, hfile]
  exact congrArg (fun answer => answer.map Prod.fst) hdecode

end Dump

/-! ### The entries -/

/-- What the switch of a recorder shows after some calls. -/
def activeAfter (on : Bool) (calls : List Call) : Bool := switched Call.switch? on calls

/-- The entries that were offered while the switch was on, after the last call that dropped the
entries. -/
def pending (on : Bool) (calls : List Call) : List RecordEntry :=
  heard Call.offer? ((tagged Call.switch? on calls).rtakeWhile fun c => !c.2.clears)

theorem pending_concat (on : Bool) (calls : List Call) (c : Call) :
    pending on (calls ++ [c])
      = if c.clears then [] else
          pending on calls ++ if activeAfter on calls then c.offer?.toList else [] := by
  unfold pending
  rw [tagged_concat, List.rtakeWhile_concat]
  cases hclears : c.clears with
  | true => rfl
  | false =>
      simp only [Bool.not_false, if_true, Bool.false_eq_true, if_false]
      exact heard_concat Call.offer? _ _ c

/-- What one call does to the switch and to the entries. -/
theorem Step.recorder_eq {d e : Desk} {c : Call} (hstep : Step d c e) (hcount : d.Countable) :
    e.recorder.active = c.switch?.getD d.recorder.active ∧
      e.recorder.entries
        = if c.clears then [] else
            d.recorder.entries ++ if d.recorder.active then c.offer?.toList else [] := by
  cases hstep with
  | start => simp [Call.switch?, Call.clears, Call.offer?, Recorder.start]
  | stop => simp [Call.switch?, Call.clears, Call.offer?, Recorder.stop]
  | reset => simp [Call.switch?, Call.clears, Recorder.reset]
  | add pixels coarse =>
      cases hactive : d.recorder.active <;>
        simp [Call.switch?, Call.clears, Call.offer?, Recorder.add, hactive]
  | dump base =>
      unfold Desk.dumpAnswer Desk.dump
      by_cases hr : d.recorder.Dumpable
      · rw [hr.dump_eq hcount]
        simp [Call.switch?, Call.clears, Recorder.reset]
      · obtain ⟨cause, hdump⟩ := dump_refused hr base d.files
        rw [hdump]
        simp [Call.switch?, Call.clears, Call.offer?]
  | load base => simp [Call.switch?, Call.clears, Call.offer?]

/-- What a run does to the switch and to the entries. -/
theorem Run.recorder_eq {a d : Desk} {calls : List Call} (hrun : Run a calls d) :
    d.recorder.active = activeAfter a.recorder.active calls ∧
      d.recorder.entries = (if calls.any Call.clears then [] else a.recorder.entries)
        ++ pending a.recorder.active calls := by
  induction hrun with
  | nil => simp [activeAfter, switched, pending, tagged, heard]
  | @snoc calls c d e hrun hstep _ ih =>
      obtain ⟨hactive, hentries⟩ := hstep.recorder_eq hrun.countable
      have hnow : activeAfter a.recorder.active (calls ++ [c])
          = c.switch?.getD (activeAfter a.recorder.active calls) :=
        switched_concat Call.switch? a.recorder.active calls c
      constructor
      · rw [hactive, ih.1, hnow]
      · rw [hentries, ih.1, ih.2, pending_concat, List.any_append]
        cases hclears : c.clears <;> simp [hclears]

/-! ### The files -/

/-- One of the calls was a dump that wrote the file of a path. -/
def WritesTo (path : String) (calls : List Call) : Prop :=
  ∃ base, Call.dump base (.ok path) ∈ calls

section Files

variable {d e : Desk} {c : Call} {path : String}

/-- A call leaves the files as they are, or it is a dump that writes the file it names. -/
theorem Step.files_eq (hstep : Step d c e) (hcount : d.Countable) :
    e.files = d.files ∨
      ∃ base, c = .dump base (.ok (filePath base)) ∧
        e.files = d.files.put (filePath base) (recordBytes d.recorder.entries) := by
  cases hstep with
  | dump base =>
      unfold Desk.dumpAnswer Desk.dump
      by_cases hr : d.recorder.Dumpable
      · rw [hr.dump_eq hcount]
        exact .inr ⟨base, rfl, rfl⟩
      · obtain ⟨cause, hdump⟩ := dump_refused hr base d.files
        rw [hdump]
        exact .inl rfl
  | _ => exact .inl rfl

theorem Step.get?_eq (hstep : Step d c e) (hcount : d.Countable) (helse : ¬WritesTo path [c]) :
    e.files.get? path = d.files.get? path := by
  rcases hstep.files_eq hcount with hsame | ⟨base, rfl, hput⟩
  · rw [hsame]
  · have hne : path ≠ filePath base := by
      rintro rfl
      exact helse ⟨base, List.mem_singleton.2 rfl⟩
    rw [hput, NameTable.get?_put, if_neg hne]

/-- A file keeps its content until a dump goes to its path. -/
theorem Run.get?_eq {a : Desk} {calls : List Call} (hrun : Run a calls d)
    (helse : ¬WritesTo path calls) : d.files.get? path = a.files.get? path := by
  induction hrun with
  | nil => rfl
  | @snoc calls c d e hrun hstep _ ih =>
      have hbefore : ¬WritesTo path calls := fun ⟨base, hmem⟩ =>
        helse ⟨base, List.mem_append_left [c] hmem⟩
      have hlast : ¬WritesTo path [c] := fun ⟨base, hmem⟩ =>
        helse ⟨base, List.mem_append_right calls hmem⟩
      exact (hstep.get?_eq hrun.countable hlast).trans (ih hbefore)

end Files

/-! ### A dump and what follows -/

/-- What a dump that succeeded leaves behind. -/
structure Desk.Archived (d : Desk) (base path : String) : Prop where
  path_eq : path = base ++ ".merge"
  recorder_eq : (d.dump base).recorder = .new
  kept : ∃ bytes, d.recorder.encode = .ok bytes ∧
    ∀ calls e, Run (d.dump base) calls e → ¬WritesTo path calls →
      e.files.get? path = some bytes ∧ load base e.files = .ok ⟨false, d.recorder.entries⟩
  elsewhere : ∀ other, other ≠ path → (d.dump base).files.get? other = d.files.get? other

/-- A dump succeeds exactly if the recorder is dumpable, keeps the record then, and changes nothing
otherwise. -/
structure Desk.Archives (d : Desk) (base : String) : Prop where
  succeeds_iff : (∃ path, d.dumpAnswer base = .ok path) ↔ d.recorder.Dumpable
  archived : ∀ path, d.dumpAnswer base = .ok path → d.Archived base path
  refused : ∀ e, d.dumpAnswer base = .error e → (∃ cause, e = .invalid cause) ∧ d.dump base = d

section Archives

variable {d : Desk} (base : String)

theorem Desk.archived_of_dumpable (hcount : d.Countable) (hr : d.recorder.Dumpable) :
    d.dumpAnswer base = .ok (filePath base) ∧ d.Archived base (filePath base) := by
  have hdump := hr.dump_eq hcount base d.files
  have hdesk : d.dump base
      = ⟨d.recorder.reset, d.files.put (filePath base) (recordBytes d.recorder.entries)⟩ := by
    rw [Desk.dump, hdump]
  refine ⟨by rw [Desk.dumpAnswer, hdump], rfl, ?_, ?_, ?_⟩
  · rw [hdesk, Recorder.reset, hr.idle]
    rfl
  · refine ⟨_, encode_eq_ok hcount hr.sidesFit, fun calls e hrun helse => ?_⟩
    have hfile : e.files.get? (filePath base) = some (recordBytes d.recorder.entries) := by
      rw [hrun.get?_eq helse, hdesk, NameTable.get?_put, if_pos rfl]
    exact ⟨hfile, load_of_get? hcount hr.sidesFit hfile⟩
  · intro other hother
    rw [hdesk, NameTable.get?_put, if_neg hother]

/-- What cannot be dumped is refused, and everything stays as it was. -/
theorem Desk.refused_of_not_dumpable (hr : ¬d.recorder.Dumpable) :
    ∃ cause, d.dumpAnswer base = .error (.invalid cause) ∧ d.dump base = d := by
  obtain ⟨cause, hdump⟩ := dump_refused hr base d.files
  refine ⟨cause, ?_, ?_⟩
  · rw [Desk.dumpAnswer, hdump]
  · rw [Desk.dump, hdump]

theorem Desk.archives (hcount : d.Countable) : d.Archives base := by
  by_cases hr : d.recorder.Dumpable
  · obtain ⟨hanswer, harchived⟩ := archived_of_dumpable base hcount hr
    refine ⟨⟨fun _ => hr, fun _ => ⟨_, hanswer⟩⟩, fun path hpath => ?_, fun e he => ?_⟩
    · obtain rfl := Except.ok.inj (hanswer.symm.trans hpath)
      exact harchived
    · cases hanswer.symm.trans he
  · obtain ⟨cause, hanswer, hsame⟩ := refused_of_not_dumpable base hr
    have hnone : ∀ path, d.dumpAnswer base ≠ .ok path := by
      intro path hpath
      cases hanswer.symm.trans hpath
    refine ⟨⟨?_, fun h => absurd h hr⟩, fun path hpath => absurd hpath (hnone path), fun e he => ?_⟩
    · rintro ⟨path, hpath⟩
      exact absurd hpath (hnone path)
    · obtain rfl := Except.error.inj (hanswer.symm.trans he)
      exact ⟨⟨cause, rfl⟩, hsame⟩

end Archives

/-- A recorder loses and duplicates nothing. After any calls it holds what it was offered while the
switch was on, in the order of the calls, since the entries were last dropped. A dump succeeds
exactly if the recorder is idle and has entries, all of images that fit a record. It leaves the
encoded record under the path with its suffix, no entries, and all other files alone, and until a
later dump goes to the same path the record can be loaded. A refused dump blames the call and
changes nothing. -/
theorem run_archives {a d : Desk} {calls : List Call} (hrun : Run a calls d) :
    d.recorder.active = activeAfter a.recorder.active calls ∧
      d.recorder.entries = (if calls.any Call.clears then [] else a.recorder.entries)
        ++ pending a.recorder.active calls ∧
      ∀ base, d.Archives base := by
  obtain ⟨hactive, hentries⟩ := hrun.recorder_eq
  exact ⟨hactive, hentries, fun base => Desk.archives base hrun.countable⟩

/-- One pixel of an image of two tiles. -/
def dottedMask : PixelMask := ((PixelMask.blank 9 3).insert 8 2).2

/-- A desk without files, and an idle recorder that holds one mask. -/
def dottedDesk : Desk := ⟨⟨false, [⟨dottedMask, true⟩]⟩, .empty⟩

/-- Of two masks the one that is offered while the switch is on is kept. The file that it is dumped
to still holds it when a later record has been dumped to another path. -/
theorem run_archives_of_dotted :
    Run ⟨.new, .empty⟩ [.add (.blank 9 3) false, .start, .add dottedMask true, .stop] dottedDesk ∧
      dottedDesk.recorder.entries
        = pending false [.add (.blank 9 3) false, .start, .add dottedMask true, .stop] ∧
      dottedDesk.dumpAnswer "/var/first" = .ok "/var/first.merge" ∧
      ∃ e, Run (dottedDesk.dump "/var/first") [.start, .add (.blank 8 8) false, .stop,
          .dump "/var/second" (.ok "/var/second.merge")] e ∧
        load "/var/first" e.files = .ok ⟨false, [⟨dottedMask, true⟩]⟩ := by
  have hidle := (Run.nil (a := ⟨.new, .empty⟩) (by decide)).snoc (.add (.blank 9 3) false)
    (by decide)
  have hadded := (hidle.snoc .start (by decide)).snoc (.add dottedMask true) (by decide)
  have hrun : Run ⟨.new, .empty⟩
      [.add (.blank 9 3) false, .start, .add dottedMask true, .stop] dottedDesk :=
    (hadded.snoc .stop (by decide) :)
  obtain ⟨-, hentries, harchives⟩ := run_archives hrun
  have hfirst := harchives "/var/first"
  obtain ⟨path, hpath⟩ := hfirst.succeeds_iff.2 ⟨rfl, by decide, by decide +kernel⟩
  have harchived := hfirst.archived path hpath
  obtain rfl : path = "/var/first.merge" := harchived.path_eq
  obtain ⟨bytes, -, hkept⟩ := harchived.kept
  have hstarted := (Run.nil (a := dottedDesk.dump "/var/first") (by decide +kernel)).snoc .start
    (by decide +kernel)
  have hlogged := (hstarted.snoc (.add (.blank 8 8) false) (by decide +kernel)).snoc .stop
    (by decide +kernel)
  have hlater : Run (dottedDesk.dump "/var/first") [.start, .add (.blank 8 8) false, .stop,
      .dump "/var/second" (.ok "/var/second.merge")] _ :=
    (hlogged.snoc (.dump "/var/second") (by decide +kernel) :)
  exact ⟨hrun, hentries, hpath, _, hlater, (hkept _ _ hlater (by simp [WritesTo])).2⟩

end Recorder

end RenderFold
