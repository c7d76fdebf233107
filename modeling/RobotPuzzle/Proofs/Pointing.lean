import RobotPuzzle.Proofs.Blame
import RobotPuzzle.Proofs.Outline

/-!
# Where the locations in a tree point

A line and a column say where to look in a text: so many line feeds before, and so many characters
from there on. For every statement of a tree its location leads to the place where the statement was
written. There the text goes on with what is quoted of a call, which begins with the call's name,
with the word `repeat` of a loop or with the sensor of a branch. And the statements of a tree, in
their order, point further and further down.

## Main definitions

* `Location.LeadsTo` — what is left of a text from a location on, told by counting lines and columns
* `Lexeme.SpelledIn` — a text spells a token out where the token stands
* `Statement.location` — where a statement points
* `Statement.Heads` — what a text goes on with where a statement points

## Main results

* `Location.leadsTo_iff` — a location leads to what is left of a text from its offset on
* `Lexer.spelled_scanFrom` — the tokens of a text are spelled out in it one behind the other
* `Statement.StandsAt.heads` — what a statement stands at is what it points at
* `locations_point_at_text` — each statement points at what was written for it, in its order
-/

namespace RobotPuzzle

/-! ### Following a location -/

namespace Location

variable {l : Location} {text rest : List Char} {p : Nat}

/-- The location leads to what is left of the text: as many line feeds stand before its line as the
line counts, and as many characters before it on the line as the column counts. The carriage return
of a line end belongs to the line that is ended. -/
def LeadsTo (l : Location) (text rest : List Char) : Prop :=
  ∃ lines row, text = lines ++ (row ++ rest) ∧ (lines = [] ∨ lines.getLast? = some '\n') ∧
    '\n' ∉ row ∧ l.line = lines.count '\n' + 1 ∧ l.column = row.length + 1

theorem after_row (l : Location) {row : List Char} (h : '\n' ∉ row) :
    l.after row = ⟨l.line, l.column + row.length⟩ := by
  fun_induction after l row with
  | case1 l => rfl
  | case2 l cs ih => exact absurd (by simp) h
  | case3 l cs ih => exact absurd List.mem_cons_self h
  | case4 l c cs hreturn hline ih =>
    rw [ih (List.not_mem_of_not_mem_cons h), nextColumn, List.length_cons]
    simp only [mk.injEq, true_and]
    omega

/-- Behind a line feed, a line has just begun. -/
theorem after_concat_lineFeed (l : Location) (cs : List Char) :
    l.after (cs ++ ['\n']) = ⟨l.line + cs.count '\n' + 1, 1⟩ := by
  fun_induction after l cs with
  | case1 l => rfl
  | case2 l cs ih =>
    rw [List.cons_append, List.cons_append, after, ih, nextLine]
    simp
    omega
  | case3 l cs ih =>
    rw [List.cons_append, after, ih, nextLine]
    simp
    omega
  | case4 l c cs hreturn hline ih =>
    have hcount : (c :: cs).count '\n' = cs.count '\n' := List.count_cons_of_ne hline
    rw [hcount]
    by_cases hend : c = '\r' ∧ cs = []
    · obtain ⟨rfl, rfl⟩ := hend
      rfl
    · have hapart : ∀ rest, c = '\r' → cs ++ ['\n'] = '\n' :: rest → False := by
        intro rest hc heq
        cases cs with
        | nil => exact hend ⟨hc, rfl⟩
        | cons d cs => exact hreturn cs hc (by rw [(List.cons.inj heq).1])
      rw [List.cons_append, after.eq_4 _ _ _ hapart hline, ih]
      rfl

/-- The lines and columns of a text are told by counting. -/
theorem first_after_append {lines row : List Char}
    (hlines : lines = [] ∨ lines.getLast? = some '\n') (hrow : '\n' ∉ row) :
    first.after (lines ++ row) = ⟨lines.count '\n' + 1, row.length + 1⟩ := by
  have hapart : ¬ (lines.getLast? = some '\r' ∧ row.head? = some '\n') :=
    fun h => hrow (List.mem_of_head? h.2)
  rw [after_append first hapart, after_row _ hrow]
  rcases hlines with rfl | hlast
  · simp [after, first, Nat.add_comm]
  · obtain ⟨cs, rfl⟩ := List.getLast?_eq_some_iff.mp hlast
    rw [after_concat_lineFeed]
    simp [first, Nat.add_comm, Nat.add_left_comm]

/-- Every text is made of whole lines and the beginning of one more line. -/
theorem exists_lines_append_row (cs : List Char) :
    ∃ lines row, cs = lines ++ row ∧ (lines = [] ∨ lines.getLast? = some '\n') ∧ '\n' ∉ row := by
  induction cs using List.reverseRecOn with
  | nil => exact ⟨[], [], rfl, .inl rfl, List.not_mem_nil⟩
  | append_singleton cs c ih =>
    obtain ⟨lines, row, rfl, hlines, hrow⟩ := ih
    by_cases hc : c = '\n'
    · refine ⟨lines ++ row ++ [c], [], (List.append_nil _).symm, .inr ?_, List.not_mem_nil⟩
      rw [List.getLast?_concat, hc]
    · refine ⟨lines, row ++ [c], List.append_assoc .., hlines, fun h => ?_⟩
      rcases List.mem_append.mp h with h | h
      · exact hrow h
      · exact hc (List.mem_singleton.mp h).symm

/-- A location leads to what is left of a text from the offset on that it is the location of. -/
theorem leadsTo_iff :
    l.LeadsTo text rest ↔ ∃ p ≤ text.length, l = ofOffset text p ∧ rest = text.drop p := by
  constructor
  · rintro ⟨lines, row, rfl, hlines, hrow, hline, hcolumn⟩
    refine ⟨(lines ++ row).length, ?_, ?_, ?_⟩
    · simp
    · rw [← List.append_assoc, ofOffset, List.take_left, first_after_append hlines hrow, ← hline,
        ← hcolumn]
    · rw [← List.append_assoc, List.drop_left]
  · rintro ⟨p, hp, rfl, rfl⟩
    obtain ⟨lines, row, htake, hlines, hrow⟩ := exists_lines_append_row (text.take p)
    have hlocation := first_after_append hlines hrow
    refine ⟨lines, row, ?_, hlines, hrow, ?_, ?_⟩
    · rw [← List.append_assoc, ← htake, List.take_append_drop]
    · rw [ofOffset, htake, hlocation]
    · rw [ofOffset, htake, hlocation]

theorem leadsTo_ofOffset (hp : p ≤ text.length) : (ofOffset text p).LeadsTo text (text.drop p) :=
  leadsTo_iff.mpr ⟨p, hp, rfl, rfl⟩

/-- A location leads to one place only. -/
theorem LeadsTo.unique {rest' : List Char} (h : l.LeadsTo text rest)
    (h' : l.LeadsTo text rest') : rest' = rest := by
  obtain ⟨p, hp, rfl, rfl⟩ := leadsTo_iff.mp h
  obtain ⟨q, hq, heq, rfl⟩ := leadsTo_iff.mp h'
  rw [(ofOffset_inj hp hq).mp heq]

end Location

/-! ### Tokens where they stand -/

/-- The text spells the token out where it stands. -/
structure Lexeme.SpelledIn (text : List Char) (l : Lexeme) : Prop where
  genuine : l.token.Genuine
  spelling_prefix : l.token.spelling <+: text.drop l.start
  stop_eq : l.stop = l.start + l.token.spelling.length

namespace Lexeme.SpelledIn

variable {text : List Char} {l : Lexeme}

theorem start_lt_stop (h : l.SpelledIn text) : l.start < l.stop := by
  have := List.length_pos_iff.mpr h.genuine.spelling_ne_nil
  have := h.stop_eq
  omega

theorem stop_le_length (h : l.SpelledIn text) : l.stop ≤ text.length := by
  have := h.start_lt_stop
  have := h.stop_eq
  have := h.spelling_prefix.length_le
  rw [List.length_drop] at this
  omega

end Lexeme.SpelledIn

namespace Lexer

theorem eq_drop_of_drop_eq_append {text cs ds : List Char} {p : Nat} (h : text.drop p = cs ++ ds) :
    ds = text.drop (p + cs.length) := by
  rw [← List.drop_drop, h, List.drop_left]

/-- The tokens of a text are spelled out in it, one behind the other. -/
theorem spelled_scanFrom {text : List Char} {p : Nat} (hp : p ≤ text.length) :
    (∀ l ∈ (scanFrom p (text.drop p)).lexemes,
      l.SpelledIn text ∧ p ≤ l.start ∧ l.stop ≤ (scanFrom p (text.drop p)).stop) ∧
    (scanFrom p (text.drop p)).lexemes.Pairwise (fun l m => l.stop ≤ m.start) ∧
    p ≤ (scanFrom p (text.drop p)).stop ∧ (scanFrom p (text.drop p)).stop ≤ text.length := by
  -- on what is left of the text
  induction hn : text.length - p using Nat.strongRecOn generalizing p with
  | _ n ih =>
    subst hn
    cases htoken : token? (dropLayout (text.drop p)) with
    | none =>
      rw [scanFrom_of_none htoken]
      have hlength := List.length_drop (i := p) (l := text)
      refine ⟨fun _ => nofun, .nil, Nat.le_add_right _ _, ?_⟩
      simp only
      omega
    | some taken =>
      obtain ⟨t, rest⟩ := taken
      obtain ⟨gap, -, hgap⟩ := exists_gap htoken
      obtain ⟨hgenuine, hspelled⟩ := genuine_of_token? htoken
      have hbody : dropLayout (text.drop p) = text.drop (p + gap.length) :=
        eq_drop_of_drop_eq_append hgap
      have hhere : text.drop (p + gap.length) = t.spelling ++ rest := hbody ▸ hspelled
      obtain rfl := eq_drop_of_drop_eq_append hhere
      have hlength : text.length - p = gap.length + (t.spelling.length +
          (text.length - (p + gap.length + t.spelling.length))) := by
        rw [← List.length_drop, ← List.length_drop, ← List.length_append, ← List.length_append,
          ← hspelled, ← hgap]
      have htaken : 0 < t.spelling.length := List.length_pos_iff.mpr hgenuine.spelling_ne_nil
      obtain ⟨hlater, horder, hle, hstop⟩ := ih
        (text.length - (p + gap.length + t.spelling.length)) (by omega) (by omega) rfl
      rw [scanFrom_of_some htoken, length_sub_of_eq_append hgap, length_sub_of_eq_append hspelled]
      refine ⟨List.forall_mem_cons.mpr ⟨⟨⟨hgenuine, ?_, rfl⟩, Nat.le_add_right _ _, hle⟩, ?_⟩,
        List.pairwise_cons.mpr ⟨fun l hl => (hlater l hl).2.1, horder⟩, ?_, hstop⟩
      · rw [hhere]
        exact List.prefix_append _ _
      · intro l hl
        obtain ⟨hspelled, hstart, hbefore⟩ := hlater l hl
        exact ⟨hspelled, by omega, hbefore⟩
      · refine Nat.le_trans ?_ hle
        omega

/-- If scanning has left nothing, it has come to the end of the text. -/
theorem stop_of_complete {p : Nat} {cs : List Char} (h : (scanFrom p cs).complete = true) :
    (scanFrom p cs).stop = p + cs.length := by
  induction hn : cs.length using Nat.strongRecOn generalizing cs p with
  | _ n ih =>
    subst hn
    cases htoken : token? (dropLayout cs) with
    | none =>
      rw [scanFrom_of_none htoken] at h ⊢
      simp [List.isEmpty_iff.mp h]
    | some taken =>
      obtain ⟨t, rest⟩ := taken
      rw [scanFrom_of_some htoken] at h ⊢
      have hbody := length_dropLayout_le cs
      have hrest := length_token? htoken
      rw [ih _ (by omega) h rfl]
      omega

end Lexer

/-! ### What a text goes on with -/

/-- No character of a word is white space. -/
theorem isBlank_of_isWordChar {c : Char} (h : Lexer.isWordChar c = true) : isBlank c = false := by
  have hcodes : (blankCodes.all fun n => !Lexer.isWordChar (Char.ofNat n)) = true := by decide
  cases hblank : isBlank c with
  | false => rfl
  | true =>
    have hc := List.all_eq_true.mp hcodes c.toNat (List.contains_iff_mem.mp hblank)
    rw [Char.ofNat_toNat, h] at hc
    cases hc

theorem IsWord.isWordChar_of_mem {cs : List Char} (h : IsWord cs) {c : Char} (hc : c ∈ cs) :
    Lexer.isWordChar c = true := by
  cases cs with
  | nil => cases hc
  | cons d cs =>
    obtain ⟨hstart, hall⟩ := h
    rcases List.mem_cons.mp hc with rfl | hc
    · rcases Bool.or_eq_true_iff.mp hstart with hletter | hunderscore
      · rw [Lexer.isWordChar, Char.isAlphanum, hletter, Bool.true_or, Bool.true_or]
      · rw [Lexer.isWordChar, hunderscore, Bool.or_true]
    · exact List.all_eq_true.mp hall c hc

/-- A word ends with a character that is no white space. -/
theorem IsWord.exists_getLast? {cs : List Char} (h : IsWord cs) :
    ∃ c, cs.getLast? = some c ∧ isBlank c = false := by
  cases hlast : cs.getLast? with
  | none =>
    rw [List.getLast?_eq_none_iff.mp hlast] at h
    exact h.elim
  | some c =>
    exact ⟨c, rfl, isBlank_of_isWordChar (h.isWordChar_of_mem (List.mem_of_getLast? hlast))⟩

/-- What is quoted of a call goes up to the end of its name at least. -/
theorem CallSite.stop_le_limit {text : List Char} {ls : List Lexeme} (site : CallSite ls)
    (hspelled : ∀ l ∈ ls, l.SpelledIn text) (horder : ls.Pairwise fun l m => l.stop ≤ m.start) :
    site.name.stop ≤ site.limit text := by
  unfold limit
  split
  · cases hafter : site.after with
    | nil => exact (hspelled _ site.name_mem).stop_le_length
    | cons l after => exact site.stop_le_start horder (by simp [hafter])
  · next hoperand =>
    have hlast := List.mem_append_left site.after (site.last_mem_operand hoperand)
    exact (site.stop_le_start horder hlast).trans (hspelled _ site.last_mem).start_lt_stop.le

namespace Statement

/-- Where a statement points: a branch points at its sensor. -/
def location : Statement → Location
  | call _ _ _ l | loop _ _ l => l
  | branch c _ _ => c.location

/-- The text goes on with the statement: with all that is quoted of a call, which begins with the
call's name and does not end with white space, with the first word of a loop, or with the sensor of
a branch. -/
def Heads (text : List Char) : Statement → Prop
  | call name _ quoted _ =>
    quoted.toList <+: text ∧ name.toList <+: quoted.toList ∧
      ∃ c, quoted.toList.getLast? = some c ∧ isBlank c = false
  | loop .. => "repeat".toList <+: text
  | branch c _ _ => c.sensor.toList <+: text

variable {text : List Char} {all : List Lexeme} {s : Statement} {l : Lexeme}

theorem StandsAt.location_eq (h : s.StandsAt text all l) :
    s.location = .ofOffset text l.start := by
  cases s with
  | call =>
    obtain ⟨site, rfl, hshows⟩ := h
    exact hshows.location_eq
  | loop | branch => exact h.2

/-- What a statement stands at is what it points at. -/
theorem StandsAt.heads (h : s.StandsAt text all l) (hspelled : ∀ l ∈ all, l.SpelledIn text)
    (horder : all.Pairwise fun l m => l.stop ≤ m.start) (hl : l ∈ all) :
    s.Heads (text.drop l.start) := by
  obtain ⟨hgenuine, hbegins, hstop⟩ := hspelled l hl
  cases s with
  | loop | branch =>
    rw [h.1] at hbegins
    exact hbegins
  | call name argument quoted location =>
    obtain ⟨site, rfl, hshows⟩ := h
    have hlimit := site.stop_le_limit hspelled horder
    rw [hshows.name_eq] at hgenuine hbegins hstop
    have hword : IsWord name.toList := hgenuine.1
    obtain ⟨c, hc, hblank⟩ := hword.exists_getLast?
    have hslice : name.toList <+: slice text site.name.start (site.limit text) := by
      refine List.prefix_take_iff.mpr ⟨hbegins, Nat.le_sub_of_add_le ?_⟩
      rw [Nat.add_comm]
      exact hstop ▸ hlimit
    have hname : name.toList <+: trimEnd (slice text site.name.start (site.limit text)) := by
      obtain ⟨rest, hrest⟩ := hslice
      rw [← hrest]
      exact prefix_trimEnd_append hc hblank rest
    simp only [Heads, hshows.quoted_eq, String.toList_ofList]
    refine ⟨(trimEnd_isPrefixOf _).trans (List.take_prefix _ _), hname, ?_⟩
    cases htrim : (trimEnd (slice text site.name.start (site.limit text))).getLast? with
    | some d => exact ⟨d, rfl, isBlank_eq_false_of_getLast?_trimEnd htrim⟩
    | none =>
      rw [List.getLast?_eq_none_iff.mp htrim] at hname
      rw [List.prefix_nil.mp hname] at hc
      cases hc

end Statement

/-! ### Where the statements of a tree point -/

/-- The statements of a tree, in their order, stand at the tokens of its text that may lead a
statement. -/
theorem standsAt_of_parse {source : String} {ss : List Statement}
    (h : parseStatements source = .ok ss) :
    (Lexer.scan source.toList).complete = true ∧
      List.Forall₂ (Statement.StandsAt source.toList (Lexer.scan source.toList).lexemes)
        (nodesOf ss) ((Lexer.scan source.toList).lexemes.filter Lexeme.leads) := by
  have hread := parseStatements_eq_ok_iff.mp h
  have hcomplete : (Lexer.scan source.toList).complete = true :=
    (Reader.readAll_eq_ok_iff.mp hread).1
  have hstop : (Lexer.scan source.toList).stop = source.toList.length :=
    (Lexer.stop_of_complete hcomplete).trans (Nat.zero_add _)
  rw [readStatements, hstop] at hread
  exact ⟨hcomplete, Reader.standsAt_of_readAll hread⟩

/-- Every statement of a tree has a location that leads to one place in the text, and there the text
goes on with what was written for the statement. In the order of the tree, which is that of the
text, the locations are further and further down. -/
theorem locations_point_at_text {source : String} {ss : List Statement}
    (h : parseStatements source = .ok ss) :
    (∀ s ∈ nodesOf ss, ∃ rest, s.location.LeadsTo source.toList rest ∧
      (∀ rest', s.location.LeadsTo source.toList rest' → rest' = rest) ∧ s.Heads rest) ∧
    ((nodesOf ss).map Statement.location).Pairwise Location.Before := by
  obtain ⟨-, hstand⟩ := standsAt_of_parse h
  obtain ⟨hspelled, horder, -, -⟩ := Lexer.spelled_scanFrom (Nat.zero_le source.toList.length)
  rw [List.drop_zero] at hspelled horder
  have hall : ∀ l ∈ (Lexer.scan source.toList).lexemes, l.SpelledIn source.toList :=
    fun l hl => (hspelled l hl).1
  -- the tokens that the statements stand at
  generalize hls : (Lexer.scan source.toList).lexemes.filter Lexeme.leads = ls at hstand
  have hmem : ∀ l ∈ ls, l ∈ (Lexer.scan source.toList).lexemes :=
    hls ▸ fun l => List.mem_of_mem_filter
  have hlater : ls.Pairwise fun l m => l.stop ≤ m.start := hls ▸ horder.filter _
  constructor
  · intro s hs
    obtain ⟨l, hl, hstands⟩ := exists_standsAt_of_mem hstand hs
    have hleads : s.location.LeadsTo source.toList (source.toList.drop l.start) := by
      have hl := hall l (hmem l hl)
      rw [hstands.location_eq]
      exact Location.leadsTo_ofOffset (hl.start_lt_stop.le.trans hl.stop_le_length)
    exact ⟨_, hleads, fun _ => hleads.unique, hstands.heads hall horder (hmem l hl)⟩
  · have hlocations : (nodesOf ss).map Statement.location =
        ls.map fun l => Location.ofOffset source.toList l.start := by
      rw [← List.forall₂_eq_eq_eq, List.forall₂_map_left_iff, List.forall₂_map_right_iff]
      exact hstand.imp fun _ _ => Statement.StandsAt.location_eq
    rw [hlocations, List.pairwise_map]
    refine hlater.imp_of_mem fun {l m} hl hm hlm => ?_
    have hm := hall m (hmem m hm)
    exact Location.ofOffset_before ((hall l (hmem l hl)).start_lt_stop.trans_le hlm)
      (hm.start_lt_stop.le.trans hm.stop_le_length)

/-- Two comments that run over line ends, a carriage return of its own, and characters of more than
one byte: all of them move what comes behind. -/
theorem locations_point_at_text_behind_comments :
    let source :=
      "/* é\r\n */ repeat\r2 \x7b jump /* ü\n*/ (3)\r\n\x7d if ! /*𝄞*/ onFire \x7b left \t\x7d"
    let ss : List Statement :=
      [.loop "2" [.call "jump" (some "3") "jump /* ü\n*/ (3)" ⟨2, 16⟩] ⟨2, 5⟩,
        .branch ⟨true, "onFire", ⟨4, 14⟩⟩ [.call "left" none "left" ⟨4, 23⟩] none]
    parseStatements source = .ok ss ∧
      (∀ s ∈ nodesOf ss, ∃ rest, s.location.LeadsTo source.toList rest ∧
        (∀ rest', s.location.LeadsTo source.toList rest' → rest' = rest) ∧ s.Heads rest) ∧
      ((nodesOf ss).map Statement.location).Pairwise Location.Before := by
  intro source ss
  have h : parseStatements source = .ok ss := by decide +kernel
  exact ⟨h, locations_point_at_text h⟩

end RobotPuzzle
