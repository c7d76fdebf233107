import Mathlib.Data.List.Chain
import Mathlib.Data.List.TakeWhile
import RobotPuzzle.Proofs.Spelling

/-!
# Blanks and comments between tokens

Between two tokens, before the first and behind the last there may be any number of blanks and
comments. A comment may hold anything but its own end, so also what looks like tokens or like
another comment. Two tokens have to be kept apart only where the second one would go on with the
first. However a text is laid out in this way, scanning finds the same tokens in it.

## Main definitions

* `IsComment`, `IsFiller` — complete comments, and what may stand in a gap
* `Token.Genuine` — a token as it may occur in a text
* `Token.Fuses` — two tokens that need a gap between them
* `Spaced` — a text that spells tokens out, with gaps where it likes
* `Tokenized` — the same, where the last line may be left without its end
* `Arrangement` — tokens with the gaps between them

## Main results

* `dropLayout_filler` — a gap is skipped as a whole
* `token?_genuine` — a token is taken off a text that begins with its spelling
* `scan_of_tokenized` — scanning finds the tokens of a text and nothing else
-/

namespace RobotPuzzle

open Lexer

/-! ### Gaps -/

/-- A complete comment: up to the end of a line, or up to its closing mark. -/
inductive IsComment : List Char → Prop
  | slashes {body : List Char} (inside : '\n' ∉ body) : IsComment ('/' :: '/' :: (body ++ ['\n']))
  | hash {body : List Char} (inside : '\n' ∉ body) : IsComment ('#' :: (body ++ ['\n']))
  | block {body : List Char} (inside : ¬ ['*', '/'] <:+: body) :
      IsComment ('/' :: '*' :: (body ++ ['*', '/']))

/-- Any mix of blanks and complete comments. -/
inductive IsFiller : List Char → Prop
  | nil : IsFiller []
  | blank {c : Char} {gap : List Char} : isGap c = true → IsFiller gap → IsFiller (c :: gap)
  | comment {cs gap : List Char} : IsComment cs → IsFiller gap → IsFiller (cs ++ gap)

section Gaps

variable {c : Char} {cs body gap rest : List Char} {t : Token}

theorem IsGap.filler (h : IsGap gap) : IsFiller gap := by
  induction gap with
  | nil => exact .nil
  | cons c gap ih =>
    exact .blank (h c List.mem_cons_self) (ih fun d hd => h d (List.mem_cons_of_mem c hd))

theorem IsComment.filler (h : IsComment cs) : IsFiller cs := by
  rw [← List.append_nil cs]
  exact .comment h .nil

theorem dropLine_append (h : '\n' ∉ body) : dropLine (body ++ '\n' :: rest) = '\n' :: rest := by
  refine dropWhile_append_of_head (fun c hc => ?_) (fun c hc => ?_)
  · exact bne_iff_ne.mpr fun heq => h (heq ▸ hc)
  · obtain rfl : '\n' = c := Option.some.inj hc
    rfl

/-- A comment is closed by the first mark that closes it. -/
theorem closeComment?_append (h : ¬ ['*', '/'] <:+: body) :
    closeComment? (body ++ '*' :: '/' :: rest) = some rest := by
  induction body with
  | nil => rfl
  | cons c body ih =>
    have hlater : ¬ ['*', '/'] <:+: body :=
      fun hin => h (hin.trans (List.suffix_cons c body).isInfix)
    -- the mark does not begin here: what follows is in the body, or is the star of the mark
    have hopen : ∀ ds, c = '*' → body ++ '*' :: '/' :: rest = '/' :: ds → False := by
      rintro ds rfl heq
      cases body with
      | nil => cases heq
      | cons d body =>
        obtain ⟨rfl, -⟩ := List.cons.inj heq
        exact h (List.prefix_append ['*', '/'] body).isInfix
    rw [List.cons_append, closeComment?.eq_3 _ _ hopen]
    exact ih hlater

/-- A comment is skipped like a blank. -/
theorem dropLayout_comment (h : IsComment cs) : dropLayout (cs ++ rest) = dropLayout rest := by
  -- a line comment is skipped up to its line feed, which is a blank
  have hline : ∀ (opener : List Char) {body : List Char}, '\n' ∉ body →
      skipOne? (opener ++ (body ++ '\n' :: rest)) = some (dropLine (body ++ '\n' :: rest)) →
        dropLayout (opener ++ (body ++ '\n' :: rest)) = dropLayout rest := by
    intro opener body hinside hskip
    rw [dropLayout_of_skipOne? hskip, dropLine_append hinside]
    exact dropLayout_of_skipOne? rfl
  cases h with
  | slashes inside =>
    simp only [List.cons_append, List.append_assoc, List.nil_append]
    exact hline ['/', '/'] inside rfl
  | hash inside =>
    simp only [List.cons_append, List.append_assoc, List.nil_append]
    exact hline ['#'] inside rfl
  | block inside =>
    simp only [List.cons_append, List.append_assoc, List.nil_append]
    exact dropLayout_of_skipOne? (closeComment?_append inside)

/-- A gap is skipped as a whole. -/
theorem dropLayout_filler (h : IsFiller gap) : dropLayout (gap ++ rest) = dropLayout rest := by
  induction h with
  | nil => rfl
  | blank hc _ ih => exact (dropLayout_of_skipOne? (skipOne?_of_isGap hc)).trans ih
  | comment hcs _ ih =>
    rw [List.append_assoc, dropLayout_comment hcs]
    exact ih

theorem IsFiller.append {gap' : List Char} (h : IsFiller gap) (h' : IsFiller gap') :
    IsFiller (gap ++ gap') := by
  induction h with
  | nil => exact h'
  | blank hc _ ih => exact .blank hc ih
  | comment hcs _ ih =>
    rw [List.append_assoc]
    exact .comment hcs ih

/-- A line comment is skipped even if the text ends before its line does. -/
theorem dropLayout_unended (h : IsComment (cs ++ ['\n'])) : dropLayout cs = [] := by
  have hline : ∀ {body : List Char}, '\n' ∉ body → dropLine body = [] := by
    intro body hinside
    refine List.dropWhile_eq_nil_iff.mpr fun c hc => bne_iff_ne.mpr ?_
    rintro rfl
    exact hinside hc
  have hskipped : ∀ {body : List Char}, '\n' ∉ body → skipOne? cs = some (dropLine body) →
      dropLayout cs = [] := by
    intro body hinside hskip
    rw [dropLayout_of_skipOne? hskip, hline hinside]
    exact dropLayout_of_skipOne?_none rfl
  generalize hall : cs ++ ['\n'] = all at h
  cases h with
  | @slashes body inside =>
    have hsplit : cs ++ ['\n'] = '/' :: '/' :: body ++ ['\n'] := hall
    exact hskipped inside (List.append_cancel_right hsplit ▸ rfl)
  | @hash body inside =>
    have hsplit : cs ++ ['\n'] = '#' :: body ++ ['\n'] := hall
    exact hskipped inside (List.append_cancel_right hsplit ▸ rfl)
  | @block body inside =>
    -- the mark that closes the comment does not end a line
    have hsplit : cs ++ ['\n'] = '/' :: '*' :: (body ++ ['*']) ++ ['/'] := by
      rw [hall]
      simp
    cases (List.append_inj' hsplit rfl).2

/-- A gap at the end of a text is skipped even if its last line is not ended. -/
theorem dropLayout_last (h : IsFiller (gap ++ ['\n'])) : dropLayout gap = [] := by
  generalize hall : gap ++ ['\n'] = all at h
  -- on the gap up to its last line feed, which belongs to the last blank or comment
  induction h generalizing gap with
  | nil => simp at hall
  | @blank c later hc _ ih =>
    cases gap with
    | nil => exact dropLayout_of_skipOne?_none rfl
    | cons d gap =>
      obtain ⟨rfl, hlater⟩ := List.cons.inj hall
      rw [dropLayout_of_skipOne? (skipOne?_of_isGap hc)]
      exact ih hlater
  | @comment cs later hcs _ ih =>
    rcases List.eq_nil_or_concat later with rfl | ⟨gap', d, rfl⟩
    · rw [List.append_nil] at hall
      exact dropLayout_unended (hall ▸ hcs)
    · rw [List.concat_eq_append, ← List.append_assoc] at hall
      obtain ⟨rfl, hd⟩ := List.append_inj' hall rfl
      rw [dropLayout_comment hcs]
      exact ih (by rw [List.concat_eq_append, hd])

/-- A gap that is not empty goes on with no token. -/
theorem IsFiller.endsBefore (h : IsFiller gap) (hne : gap ≠ []) (t : Token) :
    t.EndsBefore (gap ++ rest) := by
  -- a gap begins with a blank or with a mark of comments, and no token has either inside
  have hnone : ∀ c, isGap c = true ∨ c = '/' ∨ c = '#' → t.goesOn c = false := by
    intro c hc
    simp only [isGap, Bool.or_eq_true, beq_iff_eq] at hc
    cases t <;> rcases hc with (((rfl | rfl) | rfl) | rfl) | rfl | rfl <;> rfl
  intro c hc
  apply hnone
  cases h with
  | nil => exact absurd rfl hne
  | blank hblank _ =>
    cases hc
    exact .inl hblank
  | comment hcomment _ =>
    cases hcomment with
    | slashes | block =>
      cases hc
      exact .inr (.inl rfl)
    | hash =>
      cases hc
      exact .inr (.inr rfl)

end Gaps

/-! ### Tokens of a text -/

/-- A run of digits, with a minus sign before it or not. -/
def IsNumber : List Char → Prop
  | '-' :: cs => IsDigits cs
  | cs => IsDigits cs

/-- A token as it may occur in a text: like a proper one, but a number may be negative. -/
def Token.Genuine : Token → Prop
  | .number digits => IsNumber digits.toList
  | t => t.Proper

/-- A token that begins with a character which goes on with the one before it. -/
def Token.Fuses (t u : Token) : Prop := ∃ c, u.spelling.head? = some c ∧ t.goesOn c = true

instance (t u : Token) : Decidable (t.Fuses u) :=
  decidable_of_iff (u.spelling.head?.any t.goesOn = true) (Option.any_eq_true _ _)

section Genuine

variable {t u : Token} {rest : List Char}

theorem Token.Proper.genuine (h : t.Proper) : t.Genuine := by
  cases t with
  | number digits =>
    change IsDigits digits.toList at h
    change IsNumber digits.toList
    unfold IsNumber
    split
    · next cs hcs =>
      -- no run of digits begins with a sign
      rw [hcs] at h
      exact absurd h.1 (by decide)
    · exact h
  | _ => exact h

theorem token?_signed {cs : List Char} (hcs : IsDigits cs)
    (hrest : ∀ c, rest.head? = some c → c.isDigit = false) :
    token? ('-' :: (cs ++ rest)) = some (.number (String.ofList ('-' :: cs)), rest) := by
  cases cs with
  | nil => exact absurd hcs id
  | cons c cs =>
    have hall : ∀ d ∈ c :: cs, d.isDigit = true := by
      intro d hd
      rcases List.mem_cons.mp hd with rfl | hd
      · exact hcs.1
      · exact List.all_eq_true.mp hcs.2 d hd
    have hstart : ¬ isWordStart '-' = true := by decide
    have hsign : ¬ '-'.isDigit = true := by decide
    have hhead : ((c :: cs ++ rest).head?.any Char.isDigit) = true := hcs.1
    rw [token?, if_neg hstart, if_neg hsign, if_pos rfl, if_pos hhead,
      takeWhile_append_of_head hall hrest, dropWhile_append_of_head hall hrest]

/-- A genuine token is taken off a text that begins with its spelling and does not go on with
it. -/
theorem token?_genuine (ht : t.Genuine) (hrest : t.EndsBefore rest) :
    token? (t.spelling ++ rest) = some (t, rest) := by
  cases t with
  | number digits =>
    have hdigits : String.ofList digits.toList = digits := String.ofList_toList
    change IsNumber digits.toList at ht
    unfold IsNumber at ht
    split at ht
    · next cs hcs =>
      rw [Token.spelling, hcs, List.cons_append, token?_signed ht hrest, ← hcs, hdigits]
    · exact token?_number ht hrest
  | word | repeatWord | ifWord | elseWord | openParen | closeParen | openBrace | closeBrace
  | semicolon | bang => exact token?_spelling ht hrest

theorem Token.Genuine.spelling_ne_nil (h : t.Genuine) : t.spelling ≠ [] := by
  intro hnil
  have htoken : token? (t.spelling ++ []) = some (t, []) := token?_genuine h fun _ => nofun
  rw [hnil] at htoken
  cases htoken

/-- A token is taken as long as possible. -/
theorem endsBefore_of_token? {cs : List Char} (h : token? cs = some (t, rest)) :
    t.EndsBefore rest := by
  have hdrop : ∀ (p : Char → Bool) (ds : List Char) (d : Char),
      (ds.dropWhile p).head? = some d → p d = false := by
    intro p ds d hd
    have hstop := List.head?_dropWhile_not p ds
    rwa [hd] at hstop
  have hword : ∀ name, (Token.ofWord name).goesOn = isWordChar := by
    intro name
    unfold Token.ofWord
    split <;> rfl
  have hmark : ∀ {c : Char}, Token.ofMark? c = some t → t.goesOn = fun _ => false := by
    intro c hc
    unfold Token.ofMark? at hc
    split at hc <;> cases hc <;> rfl
  revert h
  fun_cases token? cs with
  | case1 => simp
  | case2 c cs hstart =>
    rintro ⟨⟩ d hd
    rw [hword]
    exact hdrop isWordChar cs d hd
  | case3 c cs hstart hdigit =>
    rintro ⟨⟩ d hd
    exact hdrop Char.isDigit cs d hd
  | case4 cs hstart hdigit hnext =>
    rintro ⟨⟩ d hd
    exact hdrop Char.isDigit cs d hd
  | case5 => simp
  | case6 c cs hstart hdigit hsign =>
    intro h d hd
    obtain ⟨u, hu, heq⟩ := Option.map_eq_some_iff.mp h
    cases heq
    rw [hmark hu]

/-- Tokens fuse just if the first one is not found when they touch. -/
theorem Token.fuses_iff (ht : t.Genuine) :
    t.Fuses u ↔ token? (t.spelling ++ u.spelling) ≠ some (t, u.spelling) := by
  constructor
  · rintro ⟨c, hc, hgoes⟩ htoken
    exact Bool.false_ne_true ((endsBefore_of_token? htoken c hc).symm.trans hgoes)
  · intro hfound
    by_contra hapart
    refine hfound (token?_genuine ht fun c hc => ?_)
    exact Bool.eq_false_iff.mpr fun hgoes => hapart ⟨c, hc, hgoes⟩

end Genuine

/-! ### Scanning -/

/-- A text that spells genuine tokens out in their order, with gaps before, between and behind
them. -/
inductive Spaced : List Token → List Char → Prop
  | nil {gap : List Char} : IsFiller gap → Spaced [] gap
  | cons {t : Token} {ts : List Token} {gap rest : List Char} :
    IsFiller gap → t.Genuine → t.EndsBefore rest → Spaced ts rest →
      Spaced (t :: ts) (gap ++ (t.spelling ++ rest))

theorem Layout.spaced_of_proper {ts : List Token} {text : List Char} (h : Layout ts text)
    (hts : ∀ t ∈ ts, t.Proper) : Spaced ts text := by
  induction h with
  | nil hgap => exact .nil hgap.filler
  | @cons t ts gap rest hgap hrest h ih =>
    refine .cons hgap.filler (hts t List.mem_cons_self).genuine hrest (ih fun u hu => ?_)
    exact hts u (List.mem_cons_of_mem t hu)

/-- The same for a whole text, whose last line need not be ended: a line comment may also run up to
the end of the text. -/
inductive Tokenized : List Token → List Char → Prop
  | nil {gap : List Char} : IsFiller (gap ++ ['\n']) → Tokenized [] gap
  | cons {t : Token} {ts : List Token} {gap rest : List Char} :
    IsFiller gap → t.Genuine → t.EndsBefore rest → Tokenized ts rest →
      Tokenized (t :: ts) (gap ++ (t.spelling ++ rest))

theorem Spaced.tokenized {ts : List Token} {text : List Char} (h : Spaced ts text) :
    Tokenized ts text := by
  induction h with
  | nil hgap => exact .nil (hgap.append (.blank rfl .nil))
  | cons hgap ht hrest _ ih => exact .cons hgap ht hrest ih

theorem scanFrom_of_tokenized {ts : List Token} {text : List Char} (h : Tokenized ts text)
    (pos : Nat) :
    (scanFrom pos text).lexemes.map Lexeme.token = ts ∧ (scanFrom pos text).complete = true := by
  induction h generalizing pos with
  | @nil gap hgap =>
    have hdrop : dropLayout gap = [] := dropLayout_last hgap
    have hnone : token? (dropLayout gap) = none := by
      rw [hdrop]
      rfl
    rw [scanFrom_of_none hnone, hdrop]
    exact ⟨rfl, rfl⟩
  | @cons t ts gap rest hgap ht hrest h ih =>
    have htoken := token?_genuine ht hrest
    have hdrop : dropLayout (gap ++ (t.spelling ++ rest)) = t.spelling ++ rest := by
      rw [dropLayout_filler hgap, dropLayout_of_skipOne?_none (skipOne?_eq_none_of_token? htoken)]
    have hsome : token? (dropLayout (gap ++ (t.spelling ++ rest))) = some (t, rest) := by
      rw [hdrop, htoken]
    rw [scanFrom_of_some hsome]
    dsimp only
    obtain ⟨htokens, hcomplete⟩ := ih _
    exact ⟨by rw [List.map_cons, htokens], hcomplete⟩

/-- Scanning finds the tokens of a text and leaves nothing. -/
theorem scan_of_tokenized {ts : List Token} {text : List Char} (h : Tokenized ts text) :
    (scan text).lexemes.map Lexeme.token = ts ∧ (scan text).complete = true :=
  scanFrom_of_tokenized h 0

theorem scan_of_spaced {ts : List Token} {text : List Char} (h : Spaced ts text) :
    (scan text).lexemes.map Lexeme.token = ts ∧ (scan text).complete = true :=
  scan_of_tokenized h.tokenized

/-- In particular, scanning gives back the tokens of a layout. -/
theorem scan_of_layout {ts : List Token} {text : List Char} (h : Layout ts text)
    (hts : ∀ t ∈ ts, t.Proper) :
    (scan text).lexemes.map Lexeme.token = ts ∧ (scan text).complete = true :=
  scan_of_spaced (h.spaced_of_proper hts)

/-! ### Arrangements -/

/-- A way to lay genuine tokens out: the gap before the first one, and each token with the gap
behind it. A gap may be empty where tokens do not fuse. -/
structure Arrangement where
  lead : List Char
  parts : List (Token × List Char)
  lead_filler : IsFiller lead
  filler : ∀ p ∈ parts, IsFiller p.2
  genuine : ∀ p ∈ parts, p.1.Genuine
  apart : parts.IsChain fun p q => p.2 = [] → ¬ p.1.Fuses q.1

namespace Arrangement

/-- The tokens that are laid out. -/
def tokens (a : Arrangement) : List Token := a.parts.map Prod.fst

/-- The text that they are laid out as. -/
def text (a : Arrangement) : List Char := a.lead ++ a.parts.flatMap fun p => p.1.spelling ++ p.2

theorem spaced (a : Arrangement) : Spaced a.tokens a.text := by
  obtain ⟨lead, parts, hlead, hfiller, hgenuine, hapart⟩ := a
  change Spaced (parts.map Prod.fst) (lead ++ parts.flatMap fun p => p.1.spelling ++ p.2)
  -- on the tokens: the gap behind one of them leads the others
  induction parts generalizing lead with
  | nil =>
    rw [List.flatMap_nil, List.append_nil]
    exact .nil hlead
  | cons p parts ih =>
    obtain ⟨hgap, hfiller⟩ := List.forall_mem_cons.mp hfiller
    obtain ⟨ht, hgenuine⟩ := List.forall_mem_cons.mp hgenuine
    have hrest := ih p.2 hgap hfiller hgenuine hapart.tail
    rw [List.flatMap_cons, List.map_cons, List.append_assoc]
    refine .cons hlead ht ?_ hrest
    by_cases hempty : p.2 = []
    · cases parts with
      | nil =>
        rw [hempty]
        exact fun _ => nofun
      | cons q parts =>
        -- without a gap, the spelling of the next token follows
        obtain ⟨hseparate, -⟩ := List.isChain_cons_cons.mp hapart
        obtain ⟨hq, -⟩ := List.forall_mem_cons.mp hgenuine
        intro c hc
        refine Bool.eq_false_iff.mpr fun hgoes => hseparate hempty ⟨c, ?_, hgoes⟩
        rw [hempty, List.flatMap_cons, List.nil_append, List.append_assoc,
          List.head?_append_of_ne_nil _ hq.spelling_ne_nil] at hc
        exact hc
    · exact hgap.endsBefore hempty p.1

end Arrangement

end RobotPuzzle
