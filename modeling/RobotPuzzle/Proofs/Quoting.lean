import RobotPuzzle.Proofs.Pointing

/-!
# What a syntax error quotes

A text that is no program is quoted from where it goes wrong. Where nothing is left of the text, the
quotation says so, and otherwise it should be what the reported line and column lead to. It is, but
for two kinds of characters that a text may go wrong at. A quotation ends before a semicolon, so
nothing can be quoted from one on; and it begins behind white space, of which there is more than the
blanks that a program may have between its tokens.

## Main definitions

* `Quotes` — the quotation is what the text goes on with, or says that nothing is left

## Main results

* `ProgramError.fragmentOf_cases` — a quotation is free of white space and semicolons, or says that
  nothing is left
* `quotes_fragmentOf_iff` — it depends on the first character whether the quotation is right
* `skipOne?_drop_of_error` — no text goes wrong at a blank or a comment of a program
* `quotes_iff_of_syntax_error` — an error quotes what it points at unless that begins with white
  space or a semicolon
-/

namespace RobotPuzzle

/-! ### Quotations -/

/-- What is quoted of a text from an offset on says that the text has ended if it has, and otherwise
it is something that the text goes on with. -/
def Quotes (text : List Char) (p : Nat) (fragment : String) : Prop :=
  (fragment = "<end of program>" ↔ p = text.length) ∧
    (p ≠ text.length → fragment.toList ≠ [] ∧ fragment.toList <+: text.drop p)

namespace ProgramError

/-- What is quoted of a text says that the text has ended, or it is the first run of characters that
are neither white space nor semicolons, behind the white space that the text begins with. -/
theorem fragmentOf_cases (cs : List Char) :
    fragmentOf cs = "<end of program>" ∧ (∀ c, (trimStart cs).head? = some c → c = ';') ∨
    fragmentOf cs ≠ "<end of program>" ∧ (fragmentOf cs).toList ≠ [] ∧
      (fragmentOf cs).toList <+: trimStart cs ∧
      ∀ c ∈ (fragmentOf cs).toList, isBlank c = false ∧ c ≠ ';' := by
  unfold fragmentOf
  split
  · next hnone =>
    refine .inl ⟨rfl, fun c hc => ?_⟩
    -- the first character behind white space is none itself
    have hblank : isBlank c = false := by
      have hfirst := List.head?_dropWhile_not isBlank cs
      rwa [show (cs.dropWhile isBlank).head? = some c from hc] at hfirst
    obtain ⟨ds, htrim⟩ := List.head?_eq_some_iff.mp hc
    rw [htrim, List.takeWhile_cons, hblank] at hnone
    by_contra hne
    simp [hne] at hnone
  · next hrun =>
    generalize hquoted : (trimStart cs).takeWhile (fun c => !isBlank c && c != ';') = quoted
    have hall : ∀ c ∈ quoted, isBlank c = false ∧ c ≠ ';' := by
      intro c hc
      have hc := List.all_eq_true.mp List.all_takeWhile c (hquoted ▸ hc)
      simpa using hc
    refine .inr ⟨fun heq => ?_, ?_, ?_, ?_⟩
    · -- there is white space in what would be said at the end of the text
      have hspace : ' ' ∈ (String.ofList quoted).toList := by
        rw [heq]
        decide
      rw [String.toList_ofList] at hspace
      exact absurd (hall _ hspace).1 (by decide)
    · rw [String.toList_ofList, ← hquoted]
      exact hrun
    · rw [String.toList_ofList, ← hquoted]
      exact List.takeWhile_prefix _
    · rwa [String.toList_ofList]

/-- Text is said to have ended if it has nothing but white space up to its end or a semicolon. -/
theorem fragmentOf_eq_end_iff {cs : List Char} :
    fragmentOf cs = "<end of program>" ↔ ∀ c, (trimStart cs).head? = some c → c = ';' := by
  obtain ⟨hmark, hhead⟩ | ⟨hmark, hnonempty, ⟨rest, hrest⟩, hall⟩ := fragmentOf_cases cs
  · exact iff_of_true hmark hhead
  · -- what is quoted else begins with the first character behind the white space
    obtain ⟨c, ds, hquoted⟩ := List.exists_cons_of_ne_nil hnonempty
    rw [hquoted] at hrest hall
    refine iff_of_false hmark fun hhead => (hall c List.mem_cons_self).2 (hhead c ?_)
    rw [← hrest]
    rfl

end ProgramError

/-- A quotation is right unless it is taken from a semicolon or from white space on. -/
theorem quotes_fragmentOf_iff {text : List Char} {p : Nat} (hp : p ≤ text.length) :
    Quotes text p (ProgramError.fragmentOf (text.drop p)) ↔
      ∀ c, text[p]? = some c → isBlank c = false ∧ c ≠ ';' := by
  rw [← List.head?_drop]
  constructor
  · rintro ⟨hend, hquoted⟩ c hc
    have hne : p ≠ text.length := by
      rintro rfl
      rw [List.drop_length] at hc
      cases hc
    obtain ⟨hmark, -⟩ | ⟨-, -, -, hall⟩ := ProgramError.fragmentOf_cases (text.drop p)
    · exact absurd (hend.mp hmark) hne
    · -- the quotation begins where the text does
      obtain ⟨hnonempty, rest, hrest⟩ := hquoted hne
      rw [← hrest, List.head?_append_of_ne_nil _ hnonempty] at hc
      exact hall c (List.mem_of_head? hc)
  · intro hfirst
    cases hrest : text.drop p with
    | nil =>
      have hend : p = text.length := Nat.le_antisymm hp (List.drop_eq_nil_iff.mp hrest)
      exact ⟨iff_of_true rfl hend, absurd hend⟩
    | cons c cs =>
      rw [hrest] at hfirst
      obtain ⟨hblank, hsemicolon⟩ := hfirst c rfl
      have htrim : trimStart (c :: cs) = c :: cs := List.dropWhile_cons_of_neg (by simp [hblank])
      have hne : p ≠ text.length := by
        rintro rfl
        rw [List.drop_length] at hrest
        cases hrest
      obtain ⟨-, hall⟩ | ⟨hmark, hnonempty, hprefix, -⟩ := ProgramError.fragmentOf_cases (c :: cs)
      · exact absurd (hall c (by rw [htrim, List.head?_cons])) hsemicolon
      · have hbegins : (ProgramError.fragmentOf (c :: cs)).toList <+: text.drop p := by
          rw [hrest]
          rwa [htrim] at hprefix
        exact ⟨iff_of_false hmark hne, fun _ => ⟨hnonempty, hbegins⟩⟩

/-! ### Where texts go wrong -/

theorem Lexer.skipOne?_dropLayout (cs : List Char) :
    Lexer.skipOne? (Lexer.dropLayout cs) = none := by
  fun_induction Lexer.dropLayout cs with
  | case1 cs ds h ih => exact ih
  | case2 cs h => exact h

/-- No text goes wrong at a blank or a comment that may stand between tokens. -/
theorem skipOne?_drop_of_error {text : List Char} {p : Nat} (h : readStatements text = .error p) :
    p ≤ text.length ∧ Lexer.skipOne? (text.drop p) = none := by
  obtain ⟨n, hn, rfl, -, -⟩ := readStatements_error h
  -- blanks and comments before the blamed token belong to the text before it
  obtain ⟨before, after, hsplit, hoffset, -⟩ := Lexer.tokenized_before hn
  rw [Nat.zero_add] at hoffset
  rw [Lexer.scan, hoffset]
  constructor
  · rw [hsplit, List.length_append]
    exact Nat.le_add_right _ _
  · rw [hsplit, List.drop_left]
    exact Lexer.skipOne?_dropLayout after

/-- A text that is no program goes wrong at an offset that the reported line and column lead to, and
never at one of the blanks that a program may have between its tokens. What is quoted says that the
text has ended just if nothing but white space is left up to its end or up to a semicolon, and else
it is what follows the white space. So it is what the text goes on with, and says that the text has
ended only where it has, if and only if the text does not go on with white space or a semicolon. -/
theorem quotes_iff_of_syntax_error {source : String} {e : ProgramError}
    (h : parseStatements source = .error e) :
    ∃ p fragment l, p ≤ source.toList.length ∧ readStatements source.toList = .error p ∧
      e = .unrecognized fragment l ∧ l.LeadsTo source.toList (source.toList.drop p) ∧
      (∀ c, source.toList[p]? = some c → Lexer.isGap c = false) ∧
      (fragment = "<end of program>" ↔
        ∀ c, (trimStart (source.toList.drop p)).head? = some c → c = ';') ∧
      (fragment ≠ "<end of program>" →
        fragment.toList ≠ [] ∧ fragment.toList <+: trimStart (source.toList.drop p)) ∧
      (Quotes source.toList p fragment ↔
        ∀ c, source.toList[p]? = some c → isBlank c = false ∧ c ≠ ';') := by
  obtain ⟨p, hread, rfl⟩ := parseStatements_eq_error_iff.mp h
  obtain ⟨hp, hskip⟩ := skipOne?_drop_of_error hread
  refine ⟨p, _, _, hp, hread, rfl, Location.leadsTo_ofOffset hp, fun c hc => ?_,
    ProgramError.fragmentOf_eq_end_iff, fun hquoted => ?_, quotes_fragmentOf_iff hp⟩
  · obtain ⟨rest, hrest⟩ := List.head?_eq_some_iff.mp ((List.head?_drop ..).trans hc)
    cases hgap : Lexer.isGap c with
    | false => rfl
    | true =>
      rw [hrest, skipOne?_of_isGap hgap] at hskip
      cases hskip
  · obtain ⟨hmark, -⟩ | ⟨-, hnonempty, hprefix, -⟩ :=
      ProgramError.fragmentOf_cases (source.toList.drop p)
    · exact absurd hmark hquoted
    · exact ⟨hnonempty, hprefix⟩

/-- A stray word is quoted from its first character up to the end of the text. -/
theorem quotes_iff_of_syntax_error_stray_word :
    let source := "forward 1; @launch"
    parseStatements source = .error (.unrecognized "@launch" ⟨1, 12⟩) ∧
      readStatements source.toList = .error 11 ∧
      Location.LeadsTo ⟨1, 12⟩ source.toList (source.toList.drop 11) ∧
      Quotes source.toList 11 "@launch" := by
  intro source
  have h : parseStatements source = .error (.unrecognized "@launch" ⟨1, 12⟩) := by decide +kernel
  have hwrong : readStatements source.toList = .error 11 := by decide +kernel
  obtain ⟨p, fragment, l, -, hread, heq, hleads, -, -, -, hquotes⟩ := quotes_iff_of_syntax_error h
  obtain ⟨rfl, rfl⟩ := ProgramError.unrecognized.inj heq
  obtain rfl := Except.error.inj (hread.symm.trans hwrong)
  refine ⟨h, hwrong, hleads, hquotes.mpr fun c hc => ?_⟩
  have hat : source.toList[11]? = some '@' := by decide +kernel
  obtain rfl := Option.some.inj (hat.symm.trans hc)
  decide

/-- A semicolon before any statement is taken for the end of the text. -/
theorem not_quotes_of_semicolon :
    ¬ ∀ (source : String) (p : Nat) (fragment : String) (l : Location),
      readStatements source.toList = .error p →
      parseStatements source = .error (.unrecognized fragment l) →
        Quotes source.toList p fragment := by
  intro hall
  obtain ⟨hend, -⟩ := hall ";" 0 "<end of program>" ⟨1, 1⟩ (by decide +kernel) (by decide +kernel)
  exact absurd (hend.mp rfl) (by decide)

end RobotPuzzle
