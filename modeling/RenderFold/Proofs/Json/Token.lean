/-
Texts that spell tokens.

`Spells tokens text` says how tokens are written: signs, words, natural numbers and names one after
another, with any blanks between them. Such a text is read as those tokens. The reader keeps its
last token unfinished, so each token is read in two steps: its own characters, and the end that the
next character, or the end of the text, gives it.
-/
import Mathlib.Tactic.SplitIfs
import RenderFold.Json.Token

namespace RenderFold.Json

def isDelimiter (c : Char) : Bool := isBlank c || (signToken? c).isSome

/-- Whether a text is empty or begins with a delimiter. -/
def EndsToken (text : List Char) : Prop := ∀ c ∈ text.head?, isDelimiter c = true

/-- A character that stands for itself between quotes. -/
def isPlain (c : Char) : Bool := c != '"' && c != '\\' && !(c.toNat < 0x20)

/-- A text that writes tokens one after another, with any blanks before, between and after them.
Natural numbers are written in decimal, and names without escapes. -/
inductive Spells : List Token → List Char → Prop where
  | nil : Spells [] []
  | blank {tokens : List Token} {text : List Char} {c : Char} (hblank : isBlank c = true)
      (hrest : Spells tokens text) : Spells tokens (c :: text)
  | sign {tokens : List Token} {text : List Char} {c : Char} {t : Token}
      (hsign : signToken? c = some t) (hrest : Spells tokens text) :
      Spells (t :: tokens) (c :: text)
  | word {tokens : List Token} {text letters : List Char} {t : Token}
      (hword : wordToken? letters = some t) (hend : EndsToken text) (hrest : Spells tokens text) :
      Spells (t :: tokens) (letters ++ text)
  | number {tokens : List Token} {text : List Char} (n : Nat) (hend : EndsToken text)
      (hrest : Spells tokens text) :
      Spells (.number (some n) :: tokens) (Nat.toDigits 10 n ++ text)
  | name {tokens : List Token} {text content : List Char}
      (hplain : content.all isPlain = true) (hrest : Spells tokens text) :
      Spells (.text (some (String.ofList content)) :: tokens) ('"' :: content ++ '"' :: text)

/-! ### Delimiters -/

theorem mem_of_signToken? {c : Char} {t : Token} (hsign : signToken? c = some t) :
    c ∈ ['[', ']', '\x7b', '\x7d', ':', ','] := by
  unfold signToken? at hsign
  split_ifs at hsign <;> simp [*]

theorem mem_of_isDelimiter {c : Char} (hc : isDelimiter c = true) :
    c ∈ [' ', '\n', '\t', '\r'] ++ ['[', ']', '\x7b', '\x7d', ':', ','] := by
  rw [isDelimiter, Bool.or_eq_true, Option.isSome_iff_exists] at hc
  rcases hc with hblank | ⟨t, hsign⟩
  · apply List.mem_append_left
    simpa [isBlank, or_assoc] using hblank
  · exact List.mem_append_right _ (mem_of_signToken? hsign)

/-- A delimiter goes on with neither a word nor a number. -/
theorem delimiter_ends {c : Char} (hc : isDelimiter c = true) :
    c.isLower = false ∧ NumberPart.zero.next? c = none ∧ NumberPart.digits.next? c = none := by
  have hmem := mem_of_isDelimiter hc
  simp only [List.cons_append, List.nil_append, List.mem_cons, List.not_mem_nil, or_false] at hmem
  rcases hmem with rfl | rfl | rfl | rfl | rfl | rfl | rfl | rfl | rfl | rfl <;>
    exact ⟨rfl, rfl, rfl⟩

theorem endsToken_cons {c : Char} (hc : isDelimiter c = true) (text : List Char) :
    EndsToken (c :: text) := by
  simpa [EndsToken] using hc

namespace Scan

variable {s : Scan} {before : List Token} {text : List Char} {c : Char}

/-- Read a text from a state on, and finish the last token. -/
def read? (s : Scan) (text : List Char) : Option Scan := (text.foldlM step s).bind close?

theorem read?_cons : s.read? (c :: text) = (s.step c).bind fun next => next.read? text := by
  simp only [read?, List.foldlM_cons, Option.bind_eq_bind, Option.bind_assoc]

theorem read?_append (front : List Char) :
    s.read? (front ++ text) = (front.foldlM step s).bind fun next => next.read? text := by
  simp only [read?, List.foldlM_append, Option.bind_eq_bind, Option.bind_assoc]

/-- A state that a delimiter, or the end of the text, leaves as if the last token were finished. -/
structure Rests (s : Scan) (before : List Token) : Prop where
  close_eq : s.close? = some ⟨before, .between⟩
  step_eq : ∀ c, isDelimiter c = true → s.step c = begin? before c

theorem Rests.read?_eq (hs : s.Rests before) (hend : EndsToken text) :
    s.read? text = read? ⟨before, .between⟩ text := by
  cases text with
  | nil => exact hs.close_eq
  | cons c rest =>
      -- the delimiter is read from both states alike
      rw [read?_cons, hs.step_eq c (hend c rfl), read?_cons]
      rfl

/-! ### Words -/

theorem rests_word {letters : List Char} {t : Token} (hword : wordToken? letters = some t) :
    Rests ⟨before, .word letters.reverse⟩ (t :: before) where
  close_eq := by
    simp only [close?, List.reverse_reverse, hword]
    rfl
  step_eq c hc := by
    simp only [step, (delimiter_ends hc).1, turn?, close?, List.reverse_reverse, hword]
    rfl

theorem foldlM_word {letters : List Char} {t : Token} (hword : wordToken? letters = some t) :
    letters.foldlM step ⟨before, .between⟩ = some ⟨before, .word letters.reverse⟩ := by
  unfold wordToken? at hword
  split_ifs at hword with hnull htrue hfalse
  · subst hnull
    rfl
  · subst htrue
    rfl
  · subst hfalse
    rfl

/-! ### Numbers -/

/-- How far a natural number has been read: nothing follows a zero. -/
def numeralPart (n : Nat) : NumberPart := if n = 0 then .zero else .digits

theorem rests_number (n : Nat) :
    Rests ⟨before, .number (numeralPart n) (some n)⟩ (.number (some n) :: before) where
  close_eq := by
    unfold numeralPart
    split <;> rfl
  step_eq c hc := by
    obtain ⟨-, hzero, hdigits⟩ := delimiter_ends hc
    unfold numeralPart
    split <;> simp only [step, hzero, hdigits, turn?, close?] <;> rfl

theorem begin?_digit {d : Nat} (hd : d < 10) :
    begin? before (Nat.digitChar d) = some ⟨before, .number (numeralPart d) (some d)⟩ := by
  have hall : ∀ d : Fin 10, begin? before (Nat.digitChar d)
      = some ⟨before, .number (numeralPart d) (some d.val)⟩ := by
    intro d
    match d with
    | 0 | 1 | 2 | 3 | 4 | 5 | 6 | 7 | 8 | 9 => rfl
  exact hall ⟨d, hd⟩

/-- Among digits, a further digit is appended. -/
theorem step_digit (n : Nat) {d : Nat} (hd : d < 10) :
    step ⟨before, .number .digits (some n)⟩ (Nat.digitChar d)
      = some ⟨before, .number .digits (some (10 * n + d))⟩ := by
  have hdigit : (Nat.digitChar d).isDigit = true := by
    rw [Nat.isDigit_digitChar, decide_eq_true hd]
  have hvalue : (Nat.digitChar d).toNat - '0'.toNat = d := Nat.toNat_digitChar_sub_48_of_lt_ten hd
  simp only [step, NumberPart.next?, hdigit, NumberPart.extend, hvalue]
  rfl

theorem foldlM_number (n : Nat) :
    (Nat.toDigits 10 n).foldlM step ⟨before, .between⟩
      = some ⟨before, .number (numeralPart n) (some n)⟩ := by
  induction n using Nat.strongRecOn with
  | ind n ih =>
      rw [Nat.toDigits_eq_if (by decide)]
      by_cases hn : n < 10
      · rw [if_pos hn]
        simp only [List.foldlM_cons, List.foldlM_nil, step, begin?_digit hn]
        rfl
      · -- all digits but the last have been read, and they are not a single zero
        have hfront : numeralPart (n / 10) = .digits := if_neg (by omega)
        have hwhole : numeralPart n = .digits := if_neg (by omega)
        have hlast : n % 10 < 10 := Nat.mod_lt _ (by decide)
        rw [if_neg hn, List.foldlM_append, ih (n / 10) (by omega), hfront, hwhole]
        simp only [List.foldlM_cons, List.foldlM_nil, Option.bind_eq_bind, Option.bind_some,
          step_digit (n / 10) hlast, Nat.div_add_mod]
        rfl

/-! ### Names -/

/-- No character is half of a surrogate pair. -/
theorem charsOfPoints_map_toNat (content : List Char) :
    charsOfPoints (content.map Char.toNat) = some content := by
  have hsingle : ∀ c : Char, isHighSurrogate c.toNat = false ∧ isLowSurrogate c.toNat = false := by
    intro c
    have hvalid : c.toNat < 0xd800 ∨ 0xdfff < c.toNat ∧ c.toNat < 0x110000 := c.valid
    simp only [isHighSurrogate, isLowSurrogate, Bool.and_eq_false_iff, decide_eq_false_iff_not]
    omega
  induction content with
  | nil => rfl
  | cons c rest ih =>
      obtain ⟨hhigh, hlow⟩ := hsingle c
      cases rest with
      | nil => simp [charsOfPoints, hhigh, hlow, Char.ofNat_toNat]
      | cons d rest =>
          rw [List.map_cons] at ih
          simp [charsOfPoints, hhigh, hlow, ih, Char.ofNat_toNat]

theorem foldlM_plain {content : List Char} (hplain : content.all isPlain = true)
    (points : List Nat) :
    content.foldlM step ⟨before, .text points⟩
      = some ⟨before, .text ((content.map Char.toNat).reverse ++ points)⟩ := by
  induction content generalizing points with
  | nil => rfl
  | cons c rest ih =>
      simp only [List.all_cons, isPlain, Bool.and_eq_true, bne_iff_ne, Bool.not_eq_true',
        decide_eq_false_iff_not] at hplain
      obtain ⟨⟨⟨hquote, hslash⟩, hcontrol⟩, hrest⟩ := hplain
      have hstep : step ⟨before, .text points⟩ c = some ⟨before, .text (c.toNat :: points)⟩ := by
        simp only [step, if_neg hquote, if_neg hslash, if_neg hcontrol]
      rw [List.foldlM_cons, hstep, Option.bind_eq_bind, Option.bind_some, ih hrest]
      simp

/-- A name is read as its characters; the closing quote finishes it. -/
theorem read?_name {content : List Char} (hplain : content.all isPlain = true) :
    read? ⟨before, .between⟩ ('"' :: content ++ '"' :: text)
      = read? ⟨.text (some (String.ofList content)) :: before, .between⟩ text := by
  have hopen : step ⟨before, .between⟩ '"' = some ⟨before, .text []⟩ := rfl
  have hclose : step ⟨before, .text (content.map Char.toNat).reverse⟩ '"'
      = some ⟨.text (some (String.ofList content)) :: before, .between⟩ := by
    simp [step, push, charsOfPoints_map_toNat]
  rw [List.cons_append, read?_cons, hopen, Option.bind_some, read?_append, foldlM_plain hplain,
    List.append_nil, Option.bind_some, read?_cons, hclose, Option.bind_some]

/-! ### Signs and blanks -/

theorem read?_blank (hblank : isBlank c = true) :
    read? ⟨before, .between⟩ (c :: text) = read? ⟨before, .between⟩ text := by
  have hstep : step ⟨before, .between⟩ c = some ⟨before, .between⟩ := if_pos hblank
  rw [read?_cons, hstep, Option.bind_some]

theorem read?_sign {t : Token} (hsign : signToken? c = some t) :
    read? ⟨before, .between⟩ (c :: text) = read? ⟨t :: before, .between⟩ text := by
  have hother : isBlank c = false ∧ c ≠ '"' ∧ c.isLower = false := by
    have hmem := mem_of_signToken? hsign
    simp only [List.mem_cons, List.not_mem_nil, or_false] at hmem
    rcases hmem with rfl | rfl | rfl | rfl | rfl | rfl <;> exact ⟨rfl, by decide, rfl⟩
  obtain ⟨hblank, hquote, hlower⟩ := hother
  have hstep : step ⟨before, .between⟩ c = some ⟨t :: before, .between⟩ := by
    simp [step, begin?, hblank, hquote, hlower, hsign]
  rw [read?_cons, hstep, Option.bind_some]

end Scan

/-! ### Texts -/

/-- Whatever tokens stand before it, a text is read as the tokens that it spells. -/
theorem Spells.read?_eq {tokens : List Token} {text : List Char} (h : Spells tokens text)
    (before : List Token) :
    Scan.read? ⟨before, .between⟩ text = some ⟨tokens.reverse ++ before, .between⟩ := by
  induction h generalizing before with
  | nil => rfl
  | blank hblank _ ih => rw [Scan.read?_blank hblank, ih]
  | @sign tokens text c t hsign _ ih =>
      rw [Scan.read?_sign hsign, ih, List.reverse_cons, List.append_assoc]
      rfl
  | @word tokens text letters t hword hend _ ih =>
      rw [Scan.read?_append, Scan.foldlM_word hword, Option.bind_some,
        (Scan.rests_word hword).read?_eq hend, ih, List.reverse_cons, List.append_assoc]
      rfl
  | number n hend _ ih =>
      rw [Scan.read?_append, Scan.foldlM_number, Option.bind_some,
        (Scan.rests_number n).read?_eq hend, ih, List.reverse_cons, List.append_assoc]
      rfl
  | name hplain _ ih =>
      rw [Scan.read?_name hplain, ih, List.reverse_cons, List.append_assoc]
      rfl

theorem Spells.tokens?_eq {tokens : List Token} {text : List Char} (h : Spells tokens text) :
    tokens? text = some tokens := by
  obtain ⟨s, hfold, hclose⟩ := Option.bind_eq_some_iff.1 (h.read?_eq [])
  have hstart : text.foldlM Scan.step Scan.start = some s := hfold
  simp [tokens?, hstart, hclose]

end RenderFold.Json
