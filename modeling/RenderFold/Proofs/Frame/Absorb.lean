/-
A merge of frames, part by part.

`Frame.taskAt` is the task of a single part, refused or not. It reads and writes what destination
and change set hold of that part and nothing else, so that the tasks can run in any order. On parts
that are ready it does what `Frame.absorbAt` says. `Frame.mergeAt` says what a merge leaves behind
of a part, and `absorb_eq_ok` that every part of the result is of this form. The converse
`joins_of_absorb` finds in a success all that the merge has relied on, so that runs of merges need
not assume anything about their sources.
-/
import RenderFold.Proofs.Frame.Prepare
import RenderFold.Proofs.Layer.Outcome

namespace RenderFold

namespace Exchange

/-- Exchanges that agree in everything but one part, of which the second holds `st`. -/
structure Replaces (x y : Exchange) (part : FramePart) (st : PartState part) : Prop where
  header_eq : y.header = x.header
  view_eq : y.view part = st
  view_other : ∀ other, other ≠ part → y.view other = x.view other

theorem Replaces.refl (x : Exchange) (part : FramePart) : x.Replaces x part (x.view part) :=
  ⟨rfl, rfl, fun _ _ => rfl⟩

theorem replaces_beauty (x : Exchange) (l : Layer Rgba) (mask : PixelMask) :
    x.Replaces ⟨{ x.dst with beauty := l }, { x.report with beauty := mask }⟩ .beauty
      (l, mask) where
  header_eq := rfl
  view_eq := rfl
  view_other
    | .beauty, hother => absurd rfl hother
    | .aux _, _ => rfl
    | .aov _, _ => rfl

theorem replaces_aux (x : Exchange) (k : AuxKind) (l : Switched (Layer (Texel k.channels)))
    (mask : Switched PixelMask) :
    x.Replaces
      ⟨{ x.dst with aux := x.dst.aux.set k l }, { x.report with aux := x.report.aux.set k mask }⟩
      (.aux k) (l, mask) where
  header_eq := rfl
  view_eq := by simp [view]
  view_other other hother := by
    cases other with
    | beauty => rfl
    | aux j =>
        have hne : j ≠ k := fun heq => hother (congrArg FramePart.aux heq)
        simp [view, PerKind.get_set_of_ne _ hne]
    | aov name => rfl

/-- An output that is not there is not written. -/
theorem replaces_aov (x : Exchange) (name : String) (a : Aov) (c : AovChange) :
    x.Replaces ⟨x.dst.withAov name a, x.report.withAov name c⟩ (.aov name)
      ((x.dst.findAov name).map fun _ => a, (x.report.findAov name).map fun _ => c) where
  header_eq := rfl
  view_eq := by simp [view, Frame.findAov_withAov, ChangeSet.findAov_withAov]
  view_other other hother := by
    cases other with
    | beauty => rfl
    | aux k => rfl
    | aov n =>
        have hne : n ≠ name := fun heq => hother (congrArg FramePart.aov heq)
        simp [view, Frame.findAov_withAov, ChangeSet.findAov_withAov, hne]

end Exchange

namespace Frame

/-- The pixels of a prepared part that a merge changes. -/
def changedAt (src : Frame) : (part : FramePart) → PartState part → PixelMask
  | .beauty, st => st.1.changes src.beauty
  | .aux k, st =>
      match src.aux? k with
      | some s => st.1.content.changes s
      | none => .empty
  | .aov name, st =>
      match src.liveLayer name, st.1.bind Aov.layer? with
      | some s, some l => l.changes s
      | _, _ => .empty

/-- A prepared part after the pixels of the source have been merged into it. -/
def absorbAt (src : Frame) : (part : FramePart) → PartState part → PartState part
  | .beauty, st => (st.1.merged src.beauty, st.1.changes src.beauty)
  | .aux k, st =>
      match src.aux? k with
      | some s => (⟨true, st.1.content.merged s⟩, { st.2 with content := st.1.content.changes s })
      | none => st
  | .aov name, st =>
      match src.liveLayer name, st.1.bind Aov.layer? with
      | some s, some l =>
          (st.1.map fun a => a.withLayer (l.merged s),
            st.2.map fun c => c.withMask (l.changes s))
      | _, _ => st

/-- The task of a prepared part: its answer, and what it leaves behind of the part. -/
def taskAt (src : Frame) :
    (part : FramePart) → PartState part → Except MergeError Nat × PartState part
  | .beauty, st =>
      let done := st.1.outcome src.beauty st.2
      (done.answer, done.dst, done.report)
  | .aux k, st =>
      match src.aux? k, st.1.get? with
      | some s, some l =>
          let done := l.outcome s st.2.content
          (done.answer, ⟨true, done.dst⟩, { st.2 with content := done.report })
      | _, _ => (.ok 0, st)
  | .aov name, st =>
      match (src.findAov name).bind Aov.layer?, st.1.bind Aov.layer?, st.2.bind AovChange.mask? with
      | some s, some l, some mask =>
          let done := l.outcome s mask
          (done.answer, st.1.map fun a => a.withLayer done.dst,
            st.2.map fun c => c.withMask done.report)
      | _, _, _ => (.error (.unsupported (.noPixels name)), st)

def mergeAt (src : Frame) (part : FramePart) (st : PartState part) : PartState part :=
  src.absorbAt part (src.prepareAt part st)

def mergeTally (src : Frame) (x : Exchange) : Tally :=
  src.parts.foldl (fun tally part =>
    tally.note part (src.changedAt part (src.prepareAt part (x.view part))).card) .zero

/-- What a merge of frames leaves behind of an exchange. -/
structure Merges (src : Frame) (x y : Exchange) : Prop where
  width_eq : y.dst.width = x.dst.width
  height_eq : y.dst.height = x.dst.height
  hasOutputs_iff : y.dst.hasOutputs = true ↔ ∃ name, src.hasActive name = true
  sized : y.report.sized = true
  reportWidth_eq : y.report.width = x.dst.width
  reportHeight_eq : y.report.height = x.dst.height
  view_eq : ∀ part, y.view part = src.mergeAt part (x.view part)

/-- The frames have one size, all parts in use have that size too, and the destination is sound. -/
structure Joins (dst src : Frame) : Prop where
  sound : dst.Sound
  fits : dst.Fits dst.width dst.height
  width_eq : src.width = dst.width
  height_eq : src.height = dst.height
  source : src.Fits dst.width dst.height

/-- A part is ready to be merged into: if the source has pixels there, so has the destination, in
the same layout and in the given size, and the change set has a mask. -/
def AcceptsAt (src : Frame) (w h : UInt32) : (part : FramePart) → PartState part → Prop
  | .beauty, st => st.1.HasShape w h true
  | .aux k, st =>
      ∀ s, src.aux? k = some s → st.1.isOn = true ∧ st.1.content.HasShape w h k.counted
  | .aov name, st =>
      ∀ s, src.liveLayer name = some s →
        (∃ a l, st.1 = some a ∧ a.layer? = some l ∧ l.HasShape s.format w h) ∧
          ∃ c mask, st.2 = some c ∧ c.mask? = some mask

/-! ### The parts of a source -/

theorem beauty_mem_parts (src : Frame) : .beauty ∈ src.parts := by
  simp [parts]

theorem aux_mem_parts {src : Frame} {k : AuxKind} :
    .aux k ∈ src.parts ↔ (src.aux? k).isSome = true := by
  rw [aux?, Switched.get?]
  simp [parts]

theorem aov_mem_parts {src : Frame} {name : String} :
    .aov name ∈ src.parts ↔ (src.liveLayer name).isSome = true := by
  have hmem : .aov name ∈ src.parts ↔
      ∃ a, (name, a) ∈ src.aovs.entries ∧ a.active = true ∧ a.layer?.isSome = true := by
    simp [parts]
  simp only [hmem, Option.isSome_iff_exists, liveLayer_eq_some_iff, findAov,
    NameTable.get?_eq_some_iff]
  constructor
  · rintro ⟨a, hentry, hactive, l, hlayer⟩
    exact ⟨l, a, hentry, hactive, hlayer⟩
  · rintro ⟨l, a, hentry, hactive, hlayer⟩
    exact ⟨a, hentry, hactive, l, hlayer⟩

theorem fitsAt_of_not_mem_parts {src : Frame} {part : FramePart} (hmem : part ∉ src.parts)
    {w h : UInt32} : src.FitsAt w h part := by
  cases part with
  | beauty => exact absurd (beauty_mem_parts src) hmem
  | aux k =>
      intro l hl
      exact absurd (aux_mem_parts.2 (Option.isSome_of_eq_some hl)) hmem
  | aov name =>
      intro l hl
      exact absurd (aov_mem_parts.2 (Option.isSome_of_eq_some hl)) hmem

theorem parts_nodup (src : Frame) : src.parts.Nodup := by
  have haux : ((AuxKind.all.filter fun k => (src.aux.get k).isOn).map FramePart.aux).Nodup := by
    rw [List.Nodup, List.pairwise_map]
    apply (List.Pairwise.filter _ (by decide : AuxKind.all.Nodup)).imp
    intro j k hne heq
    exact hne (FramePart.aux.inj heq)
  have haov : ((src.aovs.entries.filter fun e => e.2.active && e.2.layer?.isSome).map
      fun e => FramePart.aov e.1).Nodup := by
    rw [List.Nodup, List.pairwise_map]
    apply (List.Pairwise.filter _ (List.pairwise_map.1 src.aovs.ascending.names_nodup)).imp
    intro d e hne heq
    exact hne (FramePart.aov.inj heq)
  rw [parts, List.cons_append, List.nodup_cons, List.nodup_append]
  refine ⟨by simp, haux, haov, ?_⟩
  intro p hp q hq
  obtain ⟨k, _, rfl⟩ := List.mem_map.1 hp
  obtain ⟨e, _, rfl⟩ := List.mem_map.1 hq
  exact FramePart.noConfusion

/-! ### One part -/

section Part

variable {src : Frame} {x y : Exchange} {w h : UInt32} {tiles : Nat → List Nat}

theorem absorbPart_beauty (htiles : ∀ n, (tiles n).Perm (List.range n)) (src : Frame)
    (x : Exchange) :
    ∃ y, absorbPart tiles src x .beauty = .ok ((src.taskAt .beauty (x.view .beauty)).1, y) ∧
      x.Replaces y .beauty (src.taskAt .beauty (x.view .beauty)).2 := by
  simp only [absorbPart, Layer.absorbInOrder_eq_outcome _ _ (htiles _)]
  exact ⟨_, rfl, x.replaces_beauty _ _⟩

theorem absorbPart_aux (htiles : ∀ n, (tiles n).Perm (List.range n)) (src : Frame)
    (x : Exchange) (k : AuxKind) :
    ∃ y, absorbPart tiles src x (.aux k) = .ok ((src.taskAt (.aux k) (x.view (.aux k))).1, y) ∧
      x.Replaces y (.aux k) (src.taskAt (.aux k) (x.view (.aux k))).2 := by
  have hget : (x.view (.aux k)).1.get? = x.dst.aux? k := rfl
  simp only [absorbPart, taskAt, hget]
  cases src.aux? k with
  | none => exact ⟨x, rfl, .refl x _⟩
  | some s =>
      cases hd : x.dst.aux? k with
      | none => exact ⟨x, rfl, .refl x _⟩
      | some l =>
          have hon : (x.dst.aux.get k).isOn = true := congrArg Switched.isOn (aux?_eq_some_iff.1 hd)
          simp only [Layer.absorbInOrder_eq_outcome _ _ (htiles _), withAux, if_pos hon]
          exact ⟨_, rfl, x.replaces_aux k _ _⟩

/-- Where a named output has no pixels to merge or no mask for the report, its task is refused and
changes nothing. -/
theorem absorbPart_noPixels (tiles : Nat → List Nat) {name : String}
    (hnone : (src.findAov name).bind Aov.layer? = none ∨
      (x.dst.findAov name).bind Aov.layer? = none ∨
        (x.report.findAov name).bind AovChange.mask? = none) :
    absorbPart tiles src x (.aov name) = .ok (.error (.unsupported (.noPixels name)), x) ∧
      src.taskAt (.aov name) (x.view (.aov name))
        = (.error (.unsupported (.noPixels name)), x.view (.aov name)) := by
  constructor
  · rw [absorbPart]
    split
    · rename_i b a c hb ha hc
      split
      · rename_i s l mask hs hl hmask
        simp [hb, ha, hc, hs, hl, hmask] at hnone
      · rfl
    · rfl
  · simp only [taskAt]
    split
    · rename_i s l mask hs hl hmask
      rcases hnone with hnone | hnone | hnone
      · rw [hs] at hnone
        cases hnone
      · rw [show (x.dst.findAov name).bind Aov.layer? = some l from hl] at hnone
        cases hnone
      · rw [show (x.report.findAov name).bind AovChange.mask? = some mask from hmask] at hnone
        cases hnone
    · rfl

theorem absorbPart_aov (htiles : ∀ n, (tiles n).Perm (List.range n)) (src : Frame)
    (x : Exchange) (name : String) :
    ∃ y, absorbPart tiles src x (.aov name)
        = .ok ((src.taskAt (.aov name) (x.view (.aov name))).1, y) ∧
      x.Replaces y (.aov name) (src.taskAt (.aov name) (x.view (.aov name))).2 := by
  by_cases hnone : (src.findAov name).bind Aov.layer? = none ∨
      (x.dst.findAov name).bind Aov.layer? = none ∨
        (x.report.findAov name).bind AovChange.mask? = none
  · obtain ⟨hpart, htask⟩ := absorbPart_noPixels tiles hnone
    rw [hpart, htask]
    exact ⟨x, rfl, .refl x _⟩
  · simp only [not_or, ← ne_eq, Option.ne_none_iff_exists'] at hnone
    obtain ⟨⟨s, hs⟩, ⟨l, hl⟩, mask, hmask⟩ := hnone
    obtain ⟨b, hb, hbl⟩ := Option.bind_eq_some_iff.1 hs
    obtain ⟨a, ha, hal⟩ := Option.bind_eq_some_iff.1 hl
    obtain ⟨c, hc, hcm⟩ := Option.bind_eq_some_iff.1 hmask
    simp only [absorbPart, taskAt, Exchange.view, hb, ha, hc, Option.bind_some, hbl, hal, hcm,
      FormatLayer.absorbInOrder_eq_outcome _ _ (htiles _)]
    have hreplaces := x.replaces_aov name (a.withLayer (l.outcome s mask).dst)
      (c.withMask (l.outcome s mask).report)
    rw [ha, hc] at hreplaces
    exact ⟨_, rfl, hreplaces⟩

/-- Merging a part does its task, in whichever order it comes by the tiles, and concerns no other
part. -/
theorem absorbPart_eq (htiles : ∀ n, (tiles n).Perm (List.range n)) (src : Frame) (x : Exchange)
    (part : FramePart) :
    ∃ y, absorbPart tiles src x part = .ok ((src.taskAt part (x.view part)).1, y) ∧
      x.Replaces y part (src.taskAt part (x.view part)).2 := by
  cases part with
  | beauty => exact absorbPart_beauty htiles src x
  | aux k => exact absorbPart_aux htiles src x k
  | aov name => exact absorbPart_aov htiles src x name

/-- The task of a part that is ready is not refused. -/
theorem taskAt_of_accepts {part : FramePart} (hmem : part ∈ src.parts) {st : PartState part}
    (hready : src.AcceptsAt w h part st) (hfits : src.FitsAt w h part) :
    src.taskAt part st = (.ok (src.changedAt part st).card, src.absorbAt part st) := by
  cases part with
  | beauty =>
      have hd : st.1.HasShape w h true := hready
      simp only [taskAt, Layer.outcome_of_hasShape hd hfits]
      rfl
  | aux k =>
      obtain ⟨s, hs⟩ := Option.isSome_iff_exists.1 (aux_mem_parts.1 hmem)
      obtain ⟨hon, hd⟩ := hready s hs
      have hget : st.1.get? = some st.1.content := if_pos hon
      simp only [taskAt, hs, hget, Layer.outcome_of_hasShape hd (hfits s hs), changedAt, absorbAt]
  | aov name =>
      obtain ⟨s, hs⟩ := Option.isSome_iff_exists.1 (aov_mem_parts.1 hmem)
      obtain ⟨⟨a, l, ha, hl, hshape⟩, c, mask, hc, hmask⟩ := hready s hs
      obtain ⟨b, hb, _, hbl⟩ := liveLayer_eq_some_iff.1 hs
      obtain ⟨held, entry⟩ := st
      subst ha
      subst hc
      simp only [taskAt, hb, Option.bind_some, hbl, hl, hmask,
        FormatLayer.outcome_of_hasShape hshape (hfits s hs), changedAt, absorbAt, hs]

/-- A part whose task is not refused has the size of the destination in the source. -/
theorem fitsAt_of_taskAt {part : FramePart} {st : PartState part} {n : Nat}
    (hmem : part ∈ src.parts) (hready : src.AcceptsAt w h part st)
    (hok : (src.taskAt part st).1 = .ok n) : src.FitsAt w h part := by
  cases part with
  | beauty =>
      exact Layer.hasShape_of_absorb hready (Layer.absorb_eq_outcome _ _ _) hok
  | aux k =>
      intro s hs
      obtain ⟨hon, hd⟩ := hready s hs
      have hget : st.1.get? = some st.1.content := if_pos hon
      simp only [taskAt, hs, hget] at hok
      exact Layer.hasShape_of_absorb hd (Layer.absorb_eq_outcome _ _ _) hok
  | aov name =>
      intro s hs
      obtain ⟨⟨a, l, ha, hl, hshape⟩, c, mask, hc, hmask⟩ := hready s hs
      obtain ⟨b, hb, _, hbl⟩ := liveLayer_eq_some_iff.1 hs
      simp only [taskAt, hb, ha, hc, Option.bind_some, hbl, hl, hmask] at hok
      exact FormatLayer.hasShape_of_absorb hshape (FormatLayer.absorb_eq_outcome _ _ _) hok

/-! ### All parts -/

/-- Merging distinct parts does the task of each, and each finds its part as it was at the
beginning; the order of the parts is free, and so is the order of the tiles of each part. -/
theorem absorbParts_eq {tiles : FramePart → Nat → List Nat}
    (htiles : ∀ part n, (tiles part n).Perm (List.range n)) (src : Frame) {todo : List FramePart}
    (hnodup : todo.Nodup) (x : Exchange) :
    ∃ y, absorbParts tiles src todo x
        = .ok (todo.map fun part => (part, (src.taskAt part (x.view part)).1), y) ∧
      y.header = x.header ∧
      ∀ part, y.view part
        = if part ∈ todo then (src.taskAt part (x.view part)).2 else x.view part := by
  induction todo generalizing x with
  | nil => exact ⟨x, rfl, rfl, by simp⟩
  | cons part rest ih =>
      obtain ⟨hnot, hrest⟩ := List.nodup_cons.1 hnodup
      obtain ⟨next, hnext, hheader, hself, hother⟩ :=
        absorbPart_eq (htiles part) src x part
      have hsame : ∀ other ∈ rest, next.view other = x.view other := fun other hin =>
        hother other fun heq => hnot (heq ▸ hin)
      obtain ⟨y, hy, hheader', hview⟩ := ih hrest next
      refine ⟨y, ?_, hheader'.trans hheader, ?_⟩
      · have hanswers : rest.map (fun other => (other, (src.taskAt other (next.view other)).1))
            = rest.map fun other => (other, (src.taskAt other (x.view other)).1) := by
          apply List.map_congr_left
          intro other hin
          rw [hsame other hin]
        rw [absorbParts, hnext]
        simp only [bind, Except.bind, hy, hanswers]
        rfl
      · intro other
        rw [hview]
        by_cases heq : other = part
        · subst heq
          simp [hnot, hself]
        · simp [heq, hother other heq]

/-- Merging distinct parts that are ready changes each as `absorbAt` says. -/
theorem absorbParts_eq_ok {todo : List FramePart} (hnodup : todo.Nodup)
    (hmem : ∀ part ∈ todo, part ∈ src.parts)
    (hready : ∀ part ∈ todo, src.AcceptsAt w h part (x.view part))
    (hfits : ∀ part ∈ todo, src.FitsAt w h part) :
    ∃ y, absorbParts (fun _ => List.range) src todo x
        = .ok (todo.map fun part => (part, .ok (src.changedAt part (x.view part)).card), y) ∧
      y.header = x.header ∧
      ∀ part, y.view part
        = if part ∈ todo then src.absorbAt part (x.view part) else x.view part := by
  have htask : ∀ part ∈ todo, src.taskAt part (x.view part)
      = (.ok (src.changedAt part (x.view part)).card, src.absorbAt part (x.view part)) :=
    fun part hin => taskAt_of_accepts (hmem part hin) (hready part hin) (hfits part hin)
  obtain ⟨y, hy, hheader, hview⟩ := absorbParts_eq (fun _ _ => .refl _) src hnodup x
  refine ⟨y, ?_, hheader, ?_⟩
  · rw [hy, List.map_congr_left fun part hin => by rw [htask part hin]]
  · intro part
    rw [hview]
    split
    · rename_i hin
      rw [htask part hin]
    · rfl

theorem fitsAt_of_absorbParts {todo : List FramePart} (hnodup : todo.Nodup)
    (hmem : ∀ part ∈ todo, part ∈ src.parts)
    (hready : ∀ part ∈ todo, src.AcceptsAt w h part (x.view part))
    {answers : List (FramePart × Except MergeError Nat)}
    (hdone : absorbParts (fun _ => List.range) src todo x = .ok (answers, y))
    (hanswers : ∀ answer ∈ answers, ∃ n, answer.2 = .ok n) :
    ∀ part ∈ todo, src.FitsAt w h part := by
  obtain ⟨y', hy, -, -⟩ := absorbParts_eq (fun _ _ => .refl _) src hnodup x
  obtain ⟨rfl, rfl⟩ := Prod.mk.inj (Except.ok.inj (hy.symm.trans hdone))
  intro part hin
  obtain ⟨n, hn⟩ := hanswers _ (List.mem_map_of_mem hin)
  exact fitsAt_of_taskAt (hmem part hin) (hready part hin) hn

end Part

/-! ### Answers -/

theorem foldlM_note_eq_ok (todo : List FramePart) (n : FramePart → Nat) (t : Tally) :
    (todo.map fun part => (part, (.ok (n part) : Except MergeError Nat))).foldlM
        (fun tally answer => do return tally.note answer.1 (← answer.2)) t
      = .ok (todo.foldl (fun tally part => tally.note part (n part)) t) := by
  induction todo generalizing t with
  | nil => rfl
  | cons part rest ih => exact ih (t.note part (n part))

theorem answers_ok_of_ofAnswers {answers : List (FramePart × Except MergeError Nat)} {t : Tally}
    (hok : Tally.ofAnswers answers = .ok t) : ∀ answer ∈ answers, ∃ n, answer.2 = .ok n := by
  rw [Tally.ofAnswers] at hok
  generalize Tally.zero = start at hok
  induction answers generalizing start with
  | nil => simp
  | cons first rest ih =>
      rw [List.foldlM_cons] at hok
      obtain ⟨next, hfirst, hrest⟩ := bind_eq_ok.1 hok
      obtain ⟨n, hn, _⟩ := bind_eq_ok.1 hfirst
      intro answer hin
      rcases List.mem_cons.1 hin with rfl | hin
      · exact ⟨n, hn⟩
      · exact ih next hrest answer hin

/-! ### Whole frames -/

section Whole

variable {src dst : Frame} {report : ChangeSet} {w h : UInt32}

/-- Preparation makes every part of a fitting destination ready. -/
theorem acceptsAt_prepareAt (hsound : dst.Sound) (hfits : dst.Fits src.width src.height)
    (part : FramePart) :
    src.AcceptsAt src.width src.height part
      (src.prepareAt part (Exchange.view ⟨dst, report⟩ part)) := by
  cases part with
  | beauty => exact hfits .beauty
  | aux k =>
      intro s hs
      have hon : (src.aux.get k).isOn = true := congrArg Switched.isOn (aux?_eq_some_iff.1 hs)
      simp only [prepareAt, hon, if_true]
      exact ⟨rfl, enableLayer_hasShape (hsound.aux k) _ _⟩
  | aov name =>
      intro s hs
      obtain ⟨a, hfind, hactive, hlayer⟩ := liveLayer_eq_some_iff.1 hs
      have hstorage := Aov.layer?_eq_some_iff.1 hlayer
      simp only [prepareAt, activeAov_eq_some_iff.2 ⟨hfind, hactive⟩, Aov.follow,
        Aov.followChange, hstorage]
      obtain ⟨mask, hmask⟩ := AovChange.mask?_init
        (((report.findAov name).map AovChange.deactivate).getD .new).activate src.width src.height
      exact ⟨⟨_, _, rfl, rfl, Aov.preparedLayer_hasShape (hsound.aov_sound name) _ _ _ _⟩,
        _, mask, rfl, hmask⟩

theorem check_eq_ok_iff :
    dst.check src = .ok () ↔
      (src.width = dst.width ∧ src.height = dst.height) ∧ src.validate = .ok () ∧
        dst.validate = .ok () := by
  rw [check, size, size, ← ImageSize.mk.injEq]
  split
  · simp [*]
  · rename_i hsize
    rw [bind_eq_ok]
    constructor
    · rintro ⟨_, hsrc, hdst⟩
      exact ⟨Decidable.not_not.1 hsize, hsrc, hdst⟩
    · rintro ⟨_, hsrc, hdst⟩
      exact ⟨(), hsrc, hdst⟩

theorem Joins.check (hjoins : dst.Joins src) : dst.check src = .ok () := by
  have hsrc := hjoins.source
  rw [← hjoins.width_eq, ← hjoins.height_eq] at hsrc
  exact check_eq_ok_iff.2 ⟨⟨hjoins.width_eq, hjoins.height_eq⟩, validate_of_fits hsrc,
    validate_of_fits hjoins.fits⟩

/-- After the checks preparation succeeds. -/
theorem prepare_of_check (hcheck : dst.check src = .ok ()) (report : ChangeSet) :
    ∃ x, prepare src ⟨dst, report⟩ = .ok x ∧ x.header = src.preparedHeader ∧
      ∀ part, x.view part = src.prepareAt part (Exchange.view ⟨dst, report⟩ part) :=
  have ⟨⟨hwidth, hheight⟩, _⟩ := check_eq_ok_iff.1 hcheck
  prepare_eq_ok hwidth.symm hheight.symm

theorem absorbAt_of_not_mem_parts {part : FramePart} (hmem : part ∉ src.parts)
    (st : PartState part) : src.absorbAt part st = st := by
  cases part with
  | beauty => exact absurd (beauty_mem_parts src) hmem
  | aux k =>
      rw [aux_mem_parts, Bool.not_eq_true, Option.isSome_eq_false_iff, Option.isNone_iff_eq_none]
        at hmem
      simp only [absorbAt, hmem]
  | aov name =>
      rw [aov_mem_parts, Bool.not_eq_true, Option.isSome_eq_false_iff, Option.isNone_iff_eq_none]
        at hmem
      simp only [absorbAt, hmem]

theorem mergeAt_of_inactive {name : String} (hnone : src.activeAov name = none)
    (st : PartState (.aov name)) :
    src.mergeAt (.aov name) st
      = (st.1.map Aov.deactivate, st.2.map AovChange.deactivate) := by
  have hmem : .aov name ∉ src.parts := by
    rw [aov_mem_parts, liveLayer, hnone]
    decide
  rw [mergeAt, absorbAt_of_not_mem_parts hmem]
  simp only [prepareAt, hnone]

/-- The last step of a merge, which deactivates what the source does not have, finds nothing more to
do. -/
theorem view_retain {x y : Exchange} (hview : ∀ part, y.view part = src.mergeAt part (x.view part))
    (part : FramePart) :
    Exchange.view { y with report := y.report.retain fun name _ => src.hasActive name } part
      = src.mergeAt part (x.view part) := by
  rw [← hview]
  cases part with
  | beauty => rfl
  | aux k => rfl
  | aov name =>
      have hentry : Exchange.view
          { y with report := y.report.retain fun name _ => src.hasActive name } (.aov name)
          = (y.dst.findAov name, (y.report.findAov name).map fun c =>
              if src.hasActive name then c else c.deactivate) :=
        congrArg (y.dst.findAov name, ·) (y.report.findAov_retain _ name)
      rw [hentry, hasActive_eq_isSome]
      cases hactive : src.activeAov name with
      | some a => simp [Exchange.view]
      | none =>
          have hlast := hview (.aov name)
          rw [mergeAt_of_inactive hactive] at hlast
          obtain ⟨hdst, hreport⟩ := Prod.ext_iff.1 hlast
          simp only [Exchange.view] at hdst hreport
          simp [Exchange.view, hdst, hreport, Function.comp_def, AovChange.deactivate_deactivate]

/-- A merge of fitting frames of one size succeeds and does to every part what `mergeAt` says. -/
theorem absorb_eq_ok (hjoins : dst.Joins src) (report : ChangeSet) (recorder : Recorder)
    (coarse : Bool) :
    ∃ y, dst.absorb src report recorder coarse
        = .ok ⟨.ok (src.mergeTally ⟨dst, report⟩), y.dst, y.report,
          (recorder.add y.report.beauty coarse).2⟩ ∧
      src.Merges ⟨dst, report⟩ y := by
  have hwidth := hjoins.width_eq
  have hheight := hjoins.height_eq
  obtain ⟨x, hx, hheader, hprepared⟩ := prepare_of_check hjoins.check report
  have hready : ∀ part ∈ src.parts, src.AcceptsAt src.width src.height part (x.view part) := by
    intro part _
    rw [hprepared]
    exact acceptsAt_prepareAt hjoins.sound (hwidth ▸ hheight ▸ hjoins.fits) part
  have hfits : ∀ part ∈ src.parts, src.FitsAt src.width src.height part := by
    intro part _
    rw [hwidth, hheight]
    exact hjoins.source part
  obtain ⟨y, hy, hheader', hview⟩ := absorbParts_eq_ok src.parts_nodup (fun _ hmem => hmem) hready
    hfits
  have hlast : y.header = src.preparedHeader := hheader'.trans hheader
  have hmerge : ∀ part, y.view part = src.mergeAt part (Exchange.view ⟨dst, report⟩ part) := by
    intro part
    rw [hview, hprepared, mergeAt]
    split
    · rfl
    · rename_i hmem
      exact (absorbAt_of_not_mem_parts hmem _).symm
  refine ⟨{ y with report := y.report.retain fun name _ => src.hasActive name }, ?_, ?_⟩
  · have hanswers := foldlM_note_eq_ok src.parts
      (fun part =>
        (src.changedAt part (src.prepareAt part (Exchange.view ⟨dst, report⟩ part))).card)
      .zero
    simp only [hprepared] at hy
    rw [absorb, hjoins.check]
    simp only [bind, Except.bind, hx, hy, Tally.ofAnswers]
    simp only [bind, Except.bind] at hanswers
    rw [hanswers]
    rfl
  · refine ⟨?_, ?_, ?_, ?_, ?_, ?_, view_retain hmerge⟩
    · exact (congrArg ExchangeHeader.width hlast).trans hwidth
    · exact (congrArg ExchangeHeader.height hlast).trans hheight
    · rw [← hasOutputs_refreshStatus]
      exact Bool.eq_iff_iff.1 (congrArg ExchangeHeader.hasOutputs hlast)
    · exact (congrArg ExchangeHeader.sized hlast :)
    · exact (congrArg ExchangeHeader.reportWidth hlast).trans hwidth
    · exact (congrArg ExchangeHeader.reportHeight hlast).trans hheight

/-- A merge that succeeds has found frames of one size that fit. -/
theorem joins_of_absorb (hsound : dst.Sound) {recorder : Recorder} {coarse : Bool}
    {done : Absorbed} {tally : Tally} (hdone : dst.absorb src report recorder coarse = .ok done)
    (htally : done.answer = .ok tally) : dst.Joins src := by
  rw [absorb] at hdone
  cases hcheck : dst.check src with
  | error e =>
      rw [hcheck] at hdone
      obtain rfl := Except.ok.inj hdone
      cases htally
  | ok =>
      obtain ⟨⟨hwidth, hheight⟩, -, hvalid⟩ := check_eq_ok_iff.1 hcheck
      have hdst := (validate_eq_ok_iff hsound).1 hvalid
      rw [hcheck] at hdone
      obtain ⟨x, hx, hdone⟩ := bind_eq_ok.1 hdone
      obtain ⟨⟨answers, y⟩, hy, hdone⟩ := bind_eq_ok.1 hdone
      simp only at hdone
      cases hanswers : Tally.ofAnswers answers with
      | error e =>
          rw [hanswers] at hdone
          obtain rfl := Except.ok.inj hdone
          cases htally
      | ok tally =>
          obtain ⟨x', hx', -, hprepared⟩ := prepare_of_check hcheck report
          obtain rfl := Except.ok.inj (hx'.symm.trans hx)
          have hready : ∀ part ∈ src.parts,
              src.AcceptsAt src.width src.height part (x'.view part) := by
            intro part _
            rw [hprepared]
            exact acceptsAt_prepareAt hsound (by rwa [hwidth, hheight]) part
          have hfits := fitsAt_of_absorbParts src.parts_nodup (fun _ hmem => hmem) hready hy
            (answers_ok_of_ofAnswers hanswers)
          refine ⟨hsound, hdst, hwidth, hheight, ?_⟩
          intro part
          rw [← hwidth, ← hheight]
          by_cases hmem : part ∈ src.parts
          · exact hfits part hmem
          · exact fitsAt_of_not_mem_parts hmem

end Whole

end Frame

end RenderFold
