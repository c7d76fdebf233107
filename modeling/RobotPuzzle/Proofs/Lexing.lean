import RobotPuzzle.Proofs.Spacing

/-!
# What scanning finds

Scanning a text to its end finds its tokens, and they can be told without scanning: taken from left
to right, each as long as possible, with nothing but blanks and comments around them. There is only
one way to take a text apart like this, and where there is none, scanning stops before the end.

## Main results

* `exists_filler` — what is skipped is a gap
* `genuine_of_token?` — what is taken is the spelling of a token
* `tokenized_iff` — scanning finds just the tokens that a text is made of
* `Tokenized.unique` — a text is made of tokens in one way only
* `Tokenized.append_line` — a line end keeps the tokens of two texts apart
-/

namespace RobotPuzzle

open Lexer

/-! ### What is skipped -/

section Skipped

variable {cs ds : List Char}

/-- What is skipped of a comment goes up to the first mark that closes it. -/
theorem eq_append_of_closeComment? (h : closeComment? cs = some ds) :
    ∃ body, ¬ ['*', '/'] <:+: body ∧ cs = body ++ '*' :: '/' :: ds := by
  fun_induction closeComment? cs with
  | case1 => cases h
  | case2 cs =>
    cases h
    exact ⟨[], by simp, rfl⟩
  | case3 c cs hopen ih =>
    obtain ⟨body, hbody, rfl⟩ := ih h
    refine ⟨c :: body, fun hin => ?_, rfl⟩
    rcases List.infix_cons_iff.mp hin with hfirst | hlater
    · -- a mark that begins with the first character would have closed the comment
      obtain ⟨later, hlater⟩ := hfirst
      obtain ⟨rfl, rfl⟩ := List.cons.inj hlater
      exact hopen _ rfl rfl
    · exact hbody hlater

/-- A text begins with nothing that is skipped, or with a blank or a comment, or it is a line
comment whose line is not ended. -/
theorem skipped_cases (cs : List Char) :
    skipOne? cs = none ∨ (∃ piece rest, piece ≠ [] ∧ IsFiller piece ∧ cs = piece ++ rest) ∨
      IsComment (cs ++ ['\n']) := by
  fun_cases skipOne? cs with
  | case1 cs =>
    right
    by_cases hline : '\n' ∈ cs
    · obtain ⟨body, rest, rfl, hinside⟩ := List.eq_append_cons_of_mem hline
      refine .inl ⟨_, rest, List.cons_ne_nil _ _, (IsComment.slashes hinside).filler, ?_⟩
      simp
    · exact .inr (.slashes hline)
  | case2 cs =>
    cases hclose : closeComment? cs with
    | none => exact .inl rfl
    | some ds =>
      obtain ⟨body, hinside, rfl⟩ := eq_append_of_closeComment? hclose
      refine .inr (.inl ⟨_, ds, List.cons_ne_nil _ _, (IsComment.block hinside).filler, ?_⟩)
      simp
  | case3 cs =>
    right
    by_cases hline : '\n' ∈ cs
    · obtain ⟨body, rest, rfl, hinside⟩ := List.eq_append_cons_of_mem hline
      refine .inl ⟨_, rest, List.cons_ne_nil _ _, (IsComment.hash hinside).filler, ?_⟩
      simp
    · exact .inr (.hash hline)
  | case4 c cs _ _ _ hgap =>
    exact .inr (.inl ⟨[c], cs, List.cons_ne_nil _ _, .blank hgap .nil, rfl⟩)
  | case5 => exact .inl rfl
  | case6 => exact .inl rfl

/-- What is skipped is a gap, unless nothing is left of the text. -/
theorem exists_filler (cs : List Char) :
    (∃ gap, IsFiller gap ∧ cs = gap ++ dropLayout cs) ∨
      dropLayout cs = [] ∧ IsFiller (cs ++ ['\n']) := by
  induction hn : cs.length using Nat.strongRecOn generalizing cs with
  | _ n ih =>
    subst hn
    obtain hnone | ⟨piece, rest, hne, hpiece, rfl⟩ | hcomment := skipped_cases cs
    · refine .inl ⟨[], .nil, ?_⟩
      rw [dropLayout_of_skipOne?_none hnone, List.nil_append]
    · have hshorter : rest.length < (piece ++ rest).length := by
        have := List.length_pos_iff.mpr hne
        rw [List.length_append]
        omega
      rw [dropLayout_filler hpiece]
      obtain ⟨gap, hgap, heq⟩ | ⟨hdrop, hgap⟩ := ih _ hshorter rest rfl
      · refine .inl ⟨piece ++ gap, hpiece.append hgap, ?_⟩
        rw [List.append_assoc, ← heq]
      · refine .inr ⟨hdrop, ?_⟩
        rw [List.append_assoc]
        exact hpiece.append hgap
    · exact .inr ⟨dropLayout_unended hcomment, hcomment.filler⟩

/-- A text of which nothing is left is a gap, but for the end of its last line. -/
theorem filler_of_dropLayout_eq_nil (h : dropLayout cs = []) : IsFiller (cs ++ ['\n']) := by
  obtain ⟨gap, hgap, heq⟩ | ⟨-, hgap⟩ := exists_filler cs
  · rw [h, List.append_nil] at heq
    rw [heq]
    exact hgap.append (.blank rfl .nil)
  · exact hgap

end Skipped

/-! ### What is taken -/

section Taken

variable {cs rest : List Char} {t : Token}

theorem genuine_ofWord {name : String} (h : IsWord name.toList) :
    (Token.ofWord name).Genuine ∧ (Token.ofWord name).spelling = name.toList := by
  unfold Token.ofWord
  split
  · exact ⟨trivial, rfl⟩
  · exact ⟨trivial, rfl⟩
  · exact ⟨trivial, rfl⟩
  · next hrepeat hif helse =>
    refine ⟨⟨h, ?_⟩, rfl⟩
    exact Token.ofWord.eq_4 name hrepeat hif helse

theorem genuine_ofMark? {c : Char} (h : Token.ofMark? c = some t) :
    t.Genuine ∧ t.spelling = [c] := by
  unfold Token.ofMark? at h
  split at h <;> cases h <;> exact ⟨trivial, rfl⟩

/-- What is taken off a text is the spelling of a genuine token. -/
theorem genuine_of_token? (h : token? cs = some (t, rest)) :
    t.Genuine ∧ cs = t.spelling ++ rest := by
  -- a run of characters and what follows it make up the text
  have hsplit : ∀ (p : Char → Bool) (c : Char) (cs : List Char),
      c :: cs = (String.ofList (c :: cs.takeWhile p)).toList ++ cs.dropWhile p := by
    intro p c cs
    rw [String.toList_ofList, List.cons_append, List.takeWhile_append_dropWhile]
  revert h
  fun_cases token? cs with
  | case1 => simp
  | case2 c cs hstart =>
    rintro ⟨⟩
    have hword : IsWord (String.ofList (c :: cs.takeWhile isWordChar)).toList := by
      rw [String.toList_ofList]
      exact ⟨hstart, List.all_takeWhile⟩
    obtain ⟨hgenuine, hspelling⟩ := genuine_ofWord hword
    refine ⟨hgenuine, ?_⟩
    rw [hspelling]
    exact hsplit isWordChar c cs
  | case3 c cs hstart hdigit =>
    rintro ⟨⟩
    refine ⟨Token.Proper.genuine ?_, hsplit Char.isDigit c cs⟩
    change IsDigits (String.ofList (c :: cs.takeWhile Char.isDigit)).toList
    rw [String.toList_ofList]
    exact ⟨hdigit, List.all_takeWhile⟩
  | case4 cs hnext hstart hdigit =>
    rintro ⟨⟩
    refine ⟨?_, hsplit Char.isDigit '-' cs⟩
    change IsNumber (String.ofList ('-' :: cs.takeWhile Char.isDigit)).toList
    rw [String.toList_ofList]
    cases cs with
    | nil => cases hnext
    | cons d cs =>
      -- the digit behind the sign is the first one of the run
      have hfirst : d.isDigit = true := hnext
      change IsDigits ((d :: cs).takeWhile Char.isDigit)
      rw [List.takeWhile_cons_of_pos hfirst]
      exact ⟨hfirst, List.all_takeWhile⟩
  | case5 => simp
  | case6 c cs hstart hdigit hsign =>
    intro h
    obtain ⟨u, hu, heq⟩ := Option.map_eq_some_iff.mp h
    cases heq
    obtain ⟨hgenuine, hspelling⟩ := genuine_ofMark? hu
    refine ⟨hgenuine, ?_⟩
    rw [hspelling]
    rfl

end Taken

/-! ### What is found -/

/-- What is skipped at the beginning of a text holds no tokens. -/
theorem exists_skipped (cs : List Char) : ∃ gap, Tokenized [] gap ∧ cs = gap ++ dropLayout cs := by
  obtain ⟨gap, hgap, heq⟩ | ⟨hnil, hgap⟩ := exists_filler cs
  · exact ⟨gap, .nil (hgap.append (.blank rfl .nil)), heq⟩
  · exact ⟨cs, .nil hgap, by rw [hnil, List.append_nil]⟩

/-- What is skipped before a token is a gap. -/
theorem exists_gap {cs rest : List Char} {t : Token} (h : token? (dropLayout cs) = some (t, rest)) :
    ∃ gap, IsFiller gap ∧ cs = gap ++ dropLayout cs := by
  obtain hgap | ⟨hnil, -⟩ := exists_filler cs
  · exact hgap
  · -- nothing would be left for the token
    rw [hnil] at h
    cases h

theorem tokenized_scanFrom {cs : List Char} {pos : Nat} (h : (scanFrom pos cs).complete = true) :
    Tokenized ((scanFrom pos cs).lexemes.map Lexeme.token) cs := by
  induction hn : cs.length using Nat.strongRecOn generalizing cs pos with
  | _ n ih =>
    subst hn
    cases htoken : token? (dropLayout cs) with
    | none =>
      rw [scanFrom_of_none htoken] at h ⊢
      exact .nil (filler_of_dropLayout_eq_nil (List.isEmpty_iff.mp h))
    | some taken =>
      obtain ⟨t, rest⟩ := taken
      rw [scanFrom_of_some htoken] at h ⊢
      have hshorter : rest.length < cs.length :=
        Nat.lt_of_lt_of_le (length_token? htoken) (length_dropLayout_le cs)
      have hrest := ih _ hshorter h rfl
      obtain ⟨hgenuine, hspelled⟩ := genuine_of_token? htoken
      obtain ⟨gap, hgap, heq⟩ := exists_gap htoken
      have hall := Tokenized.cons hgap hgenuine (endsBefore_of_token? htoken) hrest
      rwa [← hspelled, ← heq] at hall

/-- Scanning finds just the tokens that a text is made of. -/
theorem tokenized_iff {ts : List Token} {text : List Char} :
    Tokenized ts text ↔
      (scan text).lexemes.map Lexeme.token = ts ∧ (scan text).complete = true := by
  constructor
  · exact scan_of_tokenized
  · rintro ⟨rfl, hcomplete⟩
    exact tokenized_scanFrom hcomplete

namespace Tokenized

variable {ts us : List Token} {text a b : List Char}

/-- A text is made of tokens in one way only. -/
theorem unique (h : Tokenized ts text) (h' : Tokenized us text) : us = ts :=
  (tokenized_iff.mp h').1.symm.trans (tokenized_iff.mp h).1

theorem filler_append {gap : List Char} (hgap : IsFiller gap) (h : Tokenized ts text) :
    Tokenized ts (gap ++ text) := by
  cases h with
  | nil hlast =>
    refine .nil ?_
    rw [List.append_assoc]
    exact hgap.append hlast
  | cons hfirst ht hrest h =>
    rw [← List.append_assoc]
    exact .cons (hgap.append hfirst) ht hrest h

/-- A line end keeps the tokens of two texts apart, and ends the last line of the first one. -/
theorem append_line (h : Tokenized ts a) (h' : Tokenized us b) :
    Tokenized (ts ++ us) (a ++ '\n' :: b) := by
  induction h with
  | @nil gap hgap =>
    have hsplit : gap ++ '\n' :: b = gap ++ ['\n'] ++ b := by simp
    rw [hsplit]
    exact h'.filler_append hgap
  | @cons t ts gap rest hgap ht hrest h ih =>
    have hends : t.EndsBefore (rest ++ '\n' :: b) := by
      cases rest with
      | nil => exact IsFiller.endsBefore (.blank rfl .nil) (List.cons_ne_nil _ _) t
      | cons c rest => exact hrest
    rw [List.append_assoc, List.append_assoc]
    exact .cons hgap ht hends ih

end Tokenized

end RobotPuzzle
