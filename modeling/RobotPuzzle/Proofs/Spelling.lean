import RobotPuzzle.Program.Lexer
import RobotPuzzle.Program.Vocabulary

/-!
# Spelling tokens out

Every token has a spelling, and a text may put blanks before, between and behind the spellings of
its tokens. Two spellings need a blank between them only where the second would go on with the
first, as a digit goes on with a number.

## Main definitions

* `Token.spelling` — the characters of a token
* `Token.Proper` — a token that its spelling gives back: no reserved word as a name, for instance
* `Token.EndsBefore` — what follows a token does not go on with it
* `Layout` — a text that spells tokens out, with blanks where it likes

## Main results

* `token?_spelling` — a proper token is taken off a text that begins with its spelling
* `skipOne?_eq_none_of_token?` — where a token begins, nothing is skipped
* `denoted_toString` — a natural number, written in decimal digits, denotes itself
-/

namespace RobotPuzzle

open Lexer

/-! ### Decimal numbers -/

theorem toList_toString (n : Nat) : (toString n).toList = Nat.toDigits 10 n := Nat.toList_repr

theorem isDigit_of_mem_toString {n : Nat} {c : Char} (h : c ∈ (toString n).toList) :
    c.isDigit = true := by
  rw [toList_toString] at h
  exact Nat.isDigit_of_mem_toDigits (by decide) (by decide) h

theorem digitsValue_toString (n : Nat) : digitsValue (toString n).toList = n := by
  rw [toList_toString]
  exact Nat.ofDigitChars_ten_toDigits

/-- A natural number, written in decimal digits, denotes itself. -/
theorem denoted_toString (n : Nat) : denoted (toString n) = n := by
  unfold denoted
  split
  · next cs hcs =>
    -- no decimal digit is a minus sign
    have hmem : '-' ∈ (toString n).toList := by
      rw [hcs]
      exact List.mem_cons_self
    exact absurd (isDigit_of_mem_toString hmem) (by decide)
  · rw [digitsValue_toString]

/-! ### Spellings -/

/-- The characters of a token. -/
def Token.spelling : Token → List Char
  | .word name => name.toList
  | .number digits => digits.toList
  | .repeatWord => "repeat".toList
  | .ifWord => "if".toList
  | .elseWord => "else".toList
  | .openParen => ['(']
  | .closeParen => [')']
  | .openBrace => ['\x7b']
  | .closeBrace => ['\x7d']
  | .semicolon => [';']
  | .bang => ['!']

/-- A run of word characters that begins as a word must. -/
def IsWord : List Char → Prop
  | [] => False
  | c :: cs => isWordStart c = true ∧ cs.all isWordChar = true

/-- A run of digits, without a sign. -/
def IsDigits : List Char → Prop
  | [] => False
  | c :: cs => c.isDigit = true ∧ cs.all Char.isDigit = true

/-- A token that its spelling gives back: a name is a word that is not reserved, and a number is
a run of digits. -/
def Token.Proper : Token → Prop
  | .word name => IsWord name.toList ∧ Token.ofWord name = .word name
  | .number digits => IsDigits digits.toList
  | _ => True

/-- The characters that go on with a token. -/
def Token.goesOn : Token → Char → Bool
  | .word _ | .repeatWord | .ifWord | .elseWord => isWordChar
  | .number _ => Char.isDigit
  | _ => fun _ => false

/-- What follows a token does not go on with it. -/
def Token.EndsBefore (t : Token) (rest : List Char) : Prop :=
  ∀ c, rest.head? = some c → t.goesOn c = false

theorem proper_number (n : Nat) : (Token.number (toString n)).Proper := by
  have hdigits : ∀ c ∈ (toString n).toList, c.isDigit = true := fun c => isDigit_of_mem_toString
  change IsDigits (toString n).toList
  cases hcs : (toString n).toList with
  | nil =>
    rw [toList_toString] at hcs
    exact absurd hcs Nat.toDigits_ne_nil
  | cons c cs =>
    rw [hcs] at hdigits
    have hall : (c :: cs).all Char.isDigit = true := List.all_eq_true.mpr hdigits
    rwa [List.all_cons, Bool.and_eq_true] at hall

/-! ### Taking one token -/

section Takes

variable {p : Char → Bool} {cs rest : List Char}

theorem takeWhile_append_of_head (hcs : ∀ c ∈ cs, p c = true)
    (hrest : ∀ c, rest.head? = some c → p c = false) : (cs ++ rest).takeWhile p = cs := by
  rw [List.takeWhile_append_of_pos hcs]
  cases rest with
  | nil => simp
  | cons d ds => simp [hrest d rfl]

theorem dropWhile_append_of_head (hcs : ∀ c ∈ cs, p c = true)
    (hrest : ∀ c, rest.head? = some c → p c = false) : (cs ++ rest).dropWhile p = rest := by
  rw [List.dropWhile_append_of_pos hcs]
  cases rest with
  | nil => simp
  | cons d ds => simp [hrest d rfl]

/-- A word is taken up to the first character that does not go on with it. -/
theorem token?_word (name : String) (hname : IsWord name.toList)
    (hrest : ∀ c, rest.head? = some c → isWordChar c = false) :
    token? (name.toList ++ rest) = some (.ofWord name, rest) := by
  have hname' : String.ofList name.toList = name := String.ofList_toList
  cases hcs : name.toList with
  | nil => simp [hcs, IsWord] at hname
  | cons c cs =>
    rw [hcs] at hname hname'
    obtain ⟨hstart, hall⟩ := hname
    have hword := List.all_eq_true.mp hall
    rw [List.cons_append, token?, if_pos hstart, takeWhile_append_of_head hword hrest,
      dropWhile_append_of_head hword hrest, hname']

theorem isDigit_iff {c : Char} : c.isDigit = true ↔ 48 ≤ c.toNat ∧ c.toNat ≤ 57 :=
  Bool.and_eq_true_iff.trans (and_congr decide_eq_true_iff decide_eq_true_iff)

theorem isWordStart_iff {c : Char} :
    isWordStart c = true ↔
      ((65 ≤ c.toNat ∧ c.toNat ≤ 90) ∨ (97 ≤ c.toNat ∧ c.toNat ≤ 122)) ∨ c = '_' := by
  have hupper : c.isUpper = true ↔ 65 ≤ c.toNat ∧ c.toNat ≤ 90 := decide_eq_true_iff
  have hlower : c.isLower = true ↔ 97 ≤ c.toNat ∧ c.toNat ≤ 122 :=
    Bool.and_eq_true_iff.trans (and_congr decide_eq_true_iff decide_eq_true_iff)
  have hletter : c.isAlpha = true ↔ c.isUpper = true ∨ c.isLower = true := Bool.or_eq_true_iff
  rw [isWordStart, Bool.or_eq_true_iff, hletter, hupper, hlower, beq_iff_eq]

/-- No digit begins a word. -/
theorem isWordStart_of_isDigit {c : Char} (h : c.isDigit = true) : isWordStart c = false := by
  have hdigit := isDigit_iff.mp h
  refine Bool.eq_false_iff.mpr fun hstart => ?_
  rcases isWordStart_iff.mp hstart with (hupper | hlower) | rfl
  · omega
  · omega
  · exact absurd hdigit.2 (by decide)

theorem token?_number {digits : String} (hdigits : IsDigits digits.toList)
    (hrest : ∀ c, rest.head? = some c → c.isDigit = false) :
    token? (digits.toList ++ rest) = some (.number digits, rest) := by
  have hdigits' : String.ofList digits.toList = digits := String.ofList_toList
  cases hcs : digits.toList with
  | nil => simp [hcs, IsDigits] at hdigits
  | cons c cs =>
    rw [hcs] at hdigits hdigits'
    obtain ⟨hdigit, hall⟩ := hdigits
    have hmore := List.all_eq_true.mp hall
    have hstart : ¬ isWordStart c = true := by simp [isWordStart_of_isDigit hdigit]
    rw [List.cons_append, token?, if_neg hstart, if_pos hdigit,
      takeWhile_append_of_head hmore hrest, dropWhile_append_of_head hmore hrest, hdigits']

end Takes

/-- A proper token is taken off a text that begins with its spelling and does not go on with
it. -/
theorem token?_spelling {t : Token} {rest : List Char} (ht : t.Proper) (hrest : t.EndsBefore rest) :
    token? (t.spelling ++ rest) = some (t, rest) := by
  cases t with
  -- reserved words are taken like names, as long as possible, and told from them afterwards
  | word name => rw [Token.spelling, token?_word name ht.1 hrest, ht.2]
  | number digits => exact token?_number ht hrest
  | repeatWord => exact token?_word "repeat" ⟨rfl, rfl⟩ hrest
  | ifWord => exact token?_word "if" ⟨rfl, rfl⟩ hrest
  | elseWord => exact token?_word "else" ⟨rfl, rfl⟩ hrest
  | openParen => rfl
  | closeParen => rfl
  | openBrace => rfl
  | closeBrace => rfl
  | semicolon => rfl
  | bang => rfl

/-! ### Layouts -/

/-- Blanks as they may stand between tokens. -/
def IsGap (cs : List Char) : Prop := ∀ c ∈ cs, isGap c = true

/-- A text that spells tokens out in their order, with blanks before, between and behind them. -/
inductive Layout : List Token → List Char → Prop
  | nil {gap : List Char} : IsGap gap → Layout [] gap
  | cons {t : Token} {ts : List Token} {gap rest : List Char} :
    IsGap gap → t.EndsBefore rest → Layout ts rest →
      Layout (t :: ts) (gap ++ (t.spelling ++ rest))

theorem isGap_nil : IsGap [] := fun _ => nofun

theorem IsGap.blank {gap : List Char} (h : IsGap gap) : IsGap (' ' :: gap) := by
  intro c hc
  rcases List.mem_cons.mp hc with rfl | hc
  · rfl
  · exact h c hc

namespace Layout

variable {t : Token} {ts : List Token} {rest : List Char}

/-- A token may follow the one before it at once. -/
theorem token (hrest : t.EndsBefore rest) (h : Layout ts rest) :
    Layout (t :: ts) (t.spelling ++ rest) :=
  .cons isGap_nil hrest h

theorem blank (h : Layout ts rest) : Layout ts (' ' :: rest) := by
  cases h with
  | nil hgap => exact .nil hgap.blank
  | cons hgap hrest h => exact .cons hgap.blank hrest h

end Layout

/-! ### Where blanks begin -/

theorem skipOne?_of_isGap {c : Char} {cs : List Char} (h : isGap c = true) :
    skipOne? (c :: cs) = some cs := by
  simp only [isGap, Bool.or_eq_true, beq_iff_eq] at h
  rcases h with ((rfl | rfl) | rfl) | rfl <;> rfl

theorem token?_of_isGap {c : Char} {cs : List Char} (h : isGap c = true) :
    token? (c :: cs) = none := by
  simp only [isGap, Bool.or_eq_true, beq_iff_eq] at h
  rcases h with ((rfl | rfl) | rfl) | rfl <;> rfl

/-- Where a token begins, there is no blank and no comment. -/
theorem skipOne?_eq_none_of_token? {cs rest : List Char} {t : Token}
    (h : token? cs = some (t, rest)) : skipOne? cs = none := by
  -- a slash and a hash begin no token, and neither does a blank
  fun_cases skipOne? cs with
  | case1 cs => cases h
  | case2 cs => cases h
  | case3 cs => cases h
  | case4 c cs _ _ _ hgap =>
    rw [token?_of_isGap hgap] at h
    cases h
  | case5 => rfl
  | case6 => rfl

end RobotPuzzle
