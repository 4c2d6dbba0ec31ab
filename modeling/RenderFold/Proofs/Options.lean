/-
Stored options and the texts they are read from.

A text of stored options is an object with some of the three fields, in any order, each with a value
of its type. It is read as the default options with these values, unless the thread count is zero;
the text that options are stored as is one of these. No text at all is read as options that would be
refused.
-/
import RenderFold.Options
import RenderFold.Proofs.Json.Tree

namespace RenderFold

namespace Options

/-- A field of stored options with a value of its type. -/
inductive Setting where
  | parallel (value : Bool)
  | threads (value : Option UInt64)
  | grain (value : UInt64)
deriving DecidableEq, Repr

namespace Setting

def name : Setting → String
  | .parallel _ => "parallel"
  | .threads _ => "threads"
  | .grain _ => "tile_grain"

def valueText : Setting → String
  | .parallel b => Json.boolText b
  | .threads n => threadsText n
  | .grain n => toString n

def value : Setting → Json
  | .parallel b => .bool b
  | .threads none => .null
  | .threads (some n) => .number (some n.toNat)
  | .grain n => .number (some n.toNat)

def text (s : Setting) : String := Json.member s.name s.valueText

def member (s : Setting) : Option String × Json := (some s.name, s.value)

end Setting

def set (o : Options) : Setting → Options
  | .parallel b => { o with parallel := b }
  | .threads n => { o with threads := n }
  | .grain n => { o with grain := n }

def Holds (o : Options) : Setting → Prop
  | .parallel b => o.parallel = b
  | .threads n => o.threads = n
  | .grain n => o.grain = n

/-- The default options with the values of the given settings. -/
def ofSettings (settings : List Setting) : Options := settings.foldr (fun s o => o.set s) default

/-- The compact text of an object with the given fields. -/
def objectText (settings : List Setting) : String := Json.written (settings.map Setting.text)

/-- A text of an object with the given fields, with any blanks between its tokens. -/
def Spelled (settings : List Setting) (text : String) : Prop :=
  Json.Spells (Json.object (settings.map Setting.member)).tokens text.toList

/-- The answer to options that could be read: no thread count of zero is accepted. -/
def checked (o : Options) : Except MergeError Options :=
  if o.threads = some 0 then .error (.invalid .noThreads) else .ok o

/-! ### Settings -/

theorem holds_set_of_name {s t : Setting} {o : Options} (hname : t.name ≠ s.name) :
    (o.set s).Holds t ↔ o.Holds t := by
  cases s <;> cases t <;> simp_all [Setting.name, set, Holds]

theorem holds_ofSettings {settings : List Setting}
    (hdistinct : (settings.map Setting.name).Nodup) {s : Setting} (hs : s ∈ settings) :
    (ofSettings settings).Holds s := by
  induction settings with
  | nil => cases hs
  | cons t rest ih =>
      obtain ⟨hnew, hrest⟩ := List.nodup_cons.1 hdistinct
      rcases List.mem_cons.1 hs with rfl | hs
      · cases s <;> rfl
      · have hname : s.name ≠ t.name := fun heq => hnew (heq ▸ List.mem_map_of_mem hs)
        exact (holds_set_of_name hname).2 (ih hrest hs)

/-- Where no value is given, the default value stays. -/
theorem holds_ofSettings_of_not_mem {settings : List Setting} {s : Setting}
    (hmissing : s.name ∉ settings.map Setting.name) (hdefault : default.Holds s) :
    (ofSettings settings).Holds s := by
  induction settings with
  | nil => exact hdefault
  | cons t rest ih =>
      rw [List.map_cons, List.mem_cons, not_or] at hmissing
      exact (holds_set_of_name hmissing.1).2 (ih hmissing.2)

/-! ### Reading an object -/

theorem namedMembers?_settings (settings : List Setting) :
    Json.namedMembers? (settings.map Setting.member)
      = some (settings.map fun s => (s.name, s.value)) := by
  induction settings with
  | nil => rfl
  | cons s rest ih =>
      rw [Json.namedMembers?] at ih ⊢
      simp [List.mapM_cons, ih, Setting.member]

/-- At most one of the settings has a given name. -/
theorem filter_name_eq {settings : List Setting} (hdistinct : (settings.map Setting.name).Nodup)
    (name : String) :
    settings.filter (fun s => s.name = name) = (settings.find? fun s => s.name = name).toList := by
  induction settings with
  | nil => rfl
  | cons s rest ih =>
      obtain ⟨hnew, hrest⟩ := List.nodup_cons.1 hdistinct
      by_cases hs : s.name = name
      · have hnone : rest.filter (fun t => t.name = name) = [] := by
          rw [List.filter_eq_nil_iff]
          intro t ht hname
          exact hnew (hs ▸ of_decide_eq_true hname ▸ List.mem_map_of_mem ht)
        simp [hs, hnone]
      · simp [hs, ih hrest]

theorem field?_settings {settings : List Setting} (hdistinct : (settings.map Setting.name).Nodup)
    (name : String) :
    Json.field? (settings.map fun s => (s.name, s.value)) name
      = some ((settings.find? fun s => s.name = name).map Setting.value) := by
  have hfilter : (settings.map fun s => (s.name, s.value)).filter (fun m => m.1 = name)
      = (settings.find? fun s => s.name = name).toList.map fun s => (s.name, s.value) := by
    rw [List.filter_map, ← filter_name_eq hdistinct]
    rfl
  rw [Json.field?, hfilter]
  cases settings.find? fun s => s.name = name <;> rfl

/-- The value of one field is what its setting gives, or the default value, if each setting either
is one of this field or leaves this field as it is. -/
theorem fieldOr_settings {α : Type} (read : Json → Option α) (get : Options → α) (name : String)
    (hset : ∀ (s : Setting) (o : Options), s.name = name ∧ read s.value = some (get (o.set s)) ∨
      s.name ≠ name ∧ get (o.set s) = get o) (settings : List Setting) :
    fieldOr read (get default) ((settings.find? fun s => s.name = name).map Setting.value)
      = some (get (ofSettings settings)) := by
  induction settings with
  | nil => rfl
  | cons s rest ih =>
      rcases hset s (ofSettings rest) with ⟨hname, hread⟩ | ⟨hname, hkept⟩
      · simp only [List.find?_cons, hname, decide_true]
        exact hread
      · simp only [List.find?_cons, hname, decide_false, ih]
        exact congrArg some hkept.symm

theorem countOfJson?_number (n : UInt64) : countOfJson? (.number (some n.toNat)) = some n := by
  have hlt : n.toNat < range64 := n.toNat_lt
  simp [countOfJson?, Json.asNatBelow?, hlt]

theorem threadsOfJson?_value (n : Option UInt64) :
    threadsOfJson? (Setting.threads n).value = some n := by
  cases n with
  | none => rfl
  | some n => rw [Setting.value, threadsOfJson?, countOfJson?_number, Option.map_some]; nofun

theorem ofJson?_settings {settings : List Setting}
    (hdistinct : (settings.map Setting.name).Nodup) :
    ofJson? (.object (settings.map Setting.member)) = some (ofSettings settings) := by
  have hparallel := fieldOr_settings Json.asBool? Options.parallel "parallel" (fun s o => by
    cases s with
    | parallel b => exact .inl ⟨rfl, rfl⟩
    | threads n => exact .inr ⟨(by decide : "threads" ≠ "parallel"), rfl⟩
    | grain n => exact .inr ⟨(by decide : "tile_grain" ≠ "parallel"), rfl⟩) settings
  have hthreads := fieldOr_settings threadsOfJson? Options.threads "threads" (fun s o => by
    cases s with
    | parallel b => exact .inr ⟨(by decide : "parallel" ≠ "threads"), rfl⟩
    | threads n => exact .inl ⟨rfl, threadsOfJson?_value n⟩
    | grain n => exact .inr ⟨(by decide : "tile_grain" ≠ "threads"), rfl⟩) settings
  have hgrain := fieldOr_settings countOfJson? Options.grain "tile_grain" (fun s o => by
    cases s with
    | parallel b => exact .inr ⟨(by decide : "parallel" ≠ "tile_grain"), rfl⟩
    | threads n => exact .inr ⟨(by decide : "threads" ≠ "tile_grain"), rfl⟩
    | grain n => exact .inl ⟨rfl, countOfJson?_number n⟩) settings
  simp [ofJson?, Json.fields?, namedMembers?_settings, fieldNames, List.mapM_cons,
    field?_settings hdistinct, hparallel, hthreads, hgrain]

theorem ofText_of_parse? {text : String} {j : Json} {o : Options}
    (hparse : Json.parse? text = some j) (hread : ofJson? j = some o) :
    ofText text = o.checked := by
  have hanswer : ofText text = o.validate.bind fun _ => .ok o := by
    rw [ofText, hparse, Option.bind_some, hread]
    rfl
  rw [hanswer, validate, checked]
  split <;> rfl

theorem ofText_of_spelled {settings : List Setting}
    (hdistinct : (settings.map Setting.name).Nodup) {text : String}
    (htext : Spelled settings text) : ofText text = (ofSettings settings).checked :=
  ofText_of_parse? (Json.parse?_of_spells htext) (ofJson?_settings hdistinct)

/-- What is read from any text whatsoever has been checked. -/
theorem validate_of_ofText {text : String} {o : Options} (h : ofText text = .ok o) :
    o.validate = .ok () := by
  rw [ofText] at h
  split at h
  · cases h
  · rename_i options _
    rcases hcheck : options.validate with e | _
    · rw [hcheck] at h
      cases h
    · rw [hcheck] at h
      cases h
      exact hcheck

/-! ### Compact texts -/

section Compact

open Json (Token Spells EndsToken)

variable {tokens : List Token} {text : List Char}

theorem spells_number (n : UInt64) (hend : EndsToken text) (hrest : Spells tokens text) :
    Spells (.number (some n.toNat) :: tokens) ((toString n).toList ++ text) := by
  have hdigits : (toString n).toList = Nat.toDigits 10 n.toNat := Nat.toList_repr
  rw [hdigits]
  exact .number n.toNat hend hrest

theorem spells_value (s : Setting) (hend : EndsToken text) (hrest : Spells tokens text) :
    Spells (s.value.tokens ++ tokens) (s.valueText.toList ++ text) := by
  have htrue : Json.wordToken? "true".toList = some (.bool true) := rfl
  have hfalse : Json.wordToken? "false".toList = some (.bool false) := rfl
  have hnull : Json.wordToken? "null".toList = some .null := rfl
  match s with
  | .parallel true => exact .word htrue hend hrest
  | .parallel false => exact .word hfalse hend hrest
  | .threads none => exact .word hnull hend hrest
  | .threads (some n) => exact spells_number n hend hrest
  | .grain n => exact spells_number n hend hrest

theorem spells_name (s : Setting) (hrest : Spells tokens text) :
    Spells (.text (some s.name) :: tokens) ((Json.quoted s.name).toList ++ text) := by
  have hplain : s.name.toList.all Json.isPlain = true := by
    cases s with
    | parallel b => exact (rfl : "parallel".toList.all Json.isPlain = true)
    | threads n => exact (rfl : "threads".toList.all Json.isPlain = true)
    | grain n => exact (rfl : "tile_grain".toList.all Json.isPlain = true)
  have hname := Spells.name hplain hrest
  rw [String.ofList_toList] at hname
  simpa [Json.quoted] using hname

/-- A member ends where the comma or the end of the object follows. -/
theorem spells_member (s : Setting) (hend : EndsToken text) (hrest : Spells tokens text) :
    Spells (.text (some s.name) :: .colon :: (s.value.tokens ++ tokens))
      (s.text.toList ++ text) := by
  have hmember := spells_name s (.sign (c := ':') rfl (spells_value s hend hrest))
  simpa [Setting.text, Json.member] using hmember

theorem spells_members (s : Setting) (rest : List Setting) :
    Spells (.text (some s.name) :: .colon ::
        (s.value.tokens ++ Json.furtherMembers (rest.map Setting.member)))
      ((",".intercalate ((s :: rest).map Setting.text)).toList ++ ['\x7d']) := by
  induction rest generalizing s with
  | nil =>
      have hclose : Spells [.closeObject] ['\x7d'] := .sign rfl .nil
      have hmember := spells_member s (Json.endsToken_cons rfl []) hclose
      rw [List.map_nil, Json.furtherMembers]
      simpa using hmember
  | cons t rest ih =>
      have hcomma := Spells.sign (c := ',') rfl (ih t)
      have hmember := spells_member s (Json.endsToken_cons rfl _) hcomma
      rw [List.map_cons, Setting.member, Json.furtherMembers]
      simpa using hmember

/-- The compact text of an object is one of its texts. -/
theorem spelled_objectText (settings : List Setting) : Spelled settings (objectText settings) := by
  cases settings with
  | nil =>
      have hopen : Spells [.openObject, .closeObject] ['\x7b', '\x7d'] := .sign rfl (.sign rfl .nil)
      rw [Spelled, List.map_nil, Json.tokens]
      exact hopen
  | cons s rest =>
      have hopen := Spells.sign (c := '\x7b') rfl (spells_members s rest)
      rw [Spelled, List.map_cons, Setting.member, Json.tokens]
      simpa [objectText, Json.written] using hopen

end Compact

/-- Options are read back from the text that they are stored as. A text of an object with different
fields is read as the given values, the default values for the fields that are missing, and refused
if the thread count is zero. From no text are options read that would be refused. -/
theorem stored_options_read_back :
    (∀ o : Options, o.threads ≠ some 0 → ofText o.toJsonText = .ok o) ∧
      (∀ settings : List Setting, (settings.map Setting.name).Nodup →
        ∃ o : Options, (∀ s ∈ settings, o.Holds s) ∧
          (∀ s, s.name ∉ settings.map Setting.name → default.Holds s → o.Holds s) ∧
          ofText (objectText settings) = o.checked ∧
          ∀ text, Spelled settings text → ofText text = o.checked) ∧
      ∀ text o, ofText text = .ok o → o.validate = .ok () := by
  refine ⟨?_, ?_, fun _ _ => validate_of_ofText⟩
  · intro o hthreads
    have hdistinct : ([.parallel o.parallel, .threads o.threads, .grain o.grain].map
        Setting.name).Nodup := by simp [Setting.name]
    calc ofText o.toJsonText = o.checked := ofText_of_spelled hdistinct (spelled_objectText _)
      _ = .ok o := if_neg hthreads
  · intro settings hdistinct
    exact ⟨ofSettings settings, fun _ hs => holds_ofSettings hdistinct hs,
      fun _ hmissing hdefault => holds_ofSettings_of_not_mem hmissing hdefault,
      ofText_of_spelled hdistinct (spelled_objectText settings),
      fun _ htext => ofText_of_spelled hdistinct htext⟩

/-- The largest thread count with the smallest grain, a thread count of zero among other fields, and
an object with blanks and one field. -/
theorem stored_options_read_back_of_extremes :
    ofText (toJsonText ⟨false, some 0xffffffffffffffff, 0⟩)
        = .ok ⟨false, some 0xffffffffffffffff, 0⟩ ∧
      ofText (objectText [.grain 0xffffffffffffffff, .threads (some 0)])
        = .error (.invalid .noThreads) ∧
      Spelled [.threads (some 2)] "\x7b \"threads\": 2 \x7d" ∧
      (∃ o : Options, o.threads = some 2 ∧ o.parallel = true ∧ o.grain = 64 ∧
        ofText "\x7b \"threads\": 2 \x7d" = .ok o ∧ o.validate = .ok ()) := by
  obtain ⟨hown, hobject, haccepted⟩ := stored_options_read_back
  obtain ⟨o, hheld, -, hzero, -⟩ :=
    hobject [.grain 0xffffffffffffffff, .threads (some 0)] (by decide)
  have hnone : o.threads = some 0 := hheld (.threads (some 0)) (by simp)
  obtain ⟨p, hgiven, hmissing, -, htext⟩ := hobject [.threads (some 2)] (by decide)
  have htwo : p.threads = some 2 := hgiven (.threads (some 2)) (by simp)
  have hspelled : Spelled [.threads (some 2)] "\x7b \"threads\": 2 \x7d" := by
    have hvalue := Json.Spells.number 2 (Json.endsToken_cons rfl _)
      (.blank (c := ' ') rfl (.sign (c := '\x7d') rfl .nil))
    have hplain : "threads".toList.all Json.isPlain = true := rfl
    have hname := Json.Spells.name hplain
      (.sign (c := ':') rfl (.blank (c := ' ') rfl hvalue))
    exact .sign (c := '\x7b') rfl (.blank (c := ' ') rfl hname)
  have hread : ofText "\x7b \"threads\": 2 \x7d" = .ok p := by
    rw [htext _ hspelled, checked, if_neg (by rw [htwo]; decide)]
  refine ⟨hown _ (by decide), ?_, hspelled, p, htwo, ?_, ?_, hread, haccepted _ _ hread⟩
  · rw [hzero, checked, if_pos hnone]
  · exact hmissing (.parallel true) (by decide) rfl
  · exact hmissing (.grain 64) (by decide) rfl

end Options

end RenderFold
