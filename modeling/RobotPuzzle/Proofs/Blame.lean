import RobotPuzzle.Proofs.Completion

/-!
# What a syntax error blames

A text that is no program is blamed on one of its offsets: on that of the first token that may not
come, or on an earlier one if parentheses are left open there. In any case the tokens before the
offset were read without complaint. So the text up to there is the beginning of a program, and a
player who looks for a mistake at the reported line and column does not look too far down.

## Main definitions

* `Location.Before` — the order in which a text passes through locations
* `Scan.offset` — where the token with a given number begins, or where scanning ended
* `Reader.Pending.noted` — the offsets of open parentheses and sensors that may be blamed

## Main results

* `Location.ofOffset_inj` — a location is that of one offset only
* `Lexer.tokenized_before` — the text before a token is made of the tokens before it
* `Reader.Reads.noted` — only offsets of tokens that were read are noted
* `readStatements_error` — the tokens before the blamed offset can be read
* `exists_parse_append` — a text whose tokens can be read is the beginning of a program
* `syntax_errors_after_viable_prefix` — the text before it is the beginning of a program
-/

namespace RobotPuzzle

/-! ### Locations tell offsets apart -/

namespace Location

variable {l m n : Location} {text : List Char} {p q : Nat}

/-- The one location is on an earlier line, or further left on the same line. -/
def Before (l m : Location) : Prop := l.line < m.line ∨ l.line = m.line ∧ l.column < m.column

theorem Before.trans (h : l.Before m) (h' : m.Before n) : l.Before n := by
  unfold Before at *
  omega

theorem Before.ne (h : l.Before m) : l ≠ m := by
  rintro rfl
  unfold Before at h
  omega

theorem before_nextLine (l : Location) : l.Before l.nextLine := .inl (Nat.lt_succ_self _)

theorem before_nextColumn (l : Location) : l.Before l.nextColumn := .inr ⟨rfl, Nat.lt_succ_self _⟩

/-- One more character leads on to a later location, also a line feed that makes the column of a
carriage return part of the line end. -/
theorem after_before_concat (l : Location) (cs : List Char) (c : Char) :
    (l.after cs).Before (l.after (cs ++ [c])) := by
  fun_induction after l cs with
  | case1 l =>
    rw [List.nil_append]
    by_cases hline : c = '\n'
    · rw [hline]
      exact l.before_nextLine
    · rw [after.eq_4 l c [] (fun _ _ => List.cons_ne_nil _ _ ∘ Eq.symm) hline]
      exact l.before_nextColumn
  | case2 l cs ih => exact ih
  | case3 l cs ih => exact ih
  | case4 l d cs hreturn hline ih =>
    -- alone, a carriage return is a column; the line feed behind it makes a line end of both
    by_cases hend : d = '\r' ∧ cs = [] ∧ c = '\n'
    · obtain ⟨rfl, rfl, rfl⟩ := hend
      exact .inl (Nat.lt_succ_self _)
    · have hapart : ∀ rest, d = '\r' → cs ++ [c] = '\n' :: rest → False := by
        intro rest hd heq
        cases cs with
        | nil => exact hend ⟨hd, rfl, (List.cons.inj heq).1⟩
        | cons e cs => exact hreturn cs hd (by rw [(List.cons.inj heq).1])
      rw [List.cons_append, after.eq_4 _ _ _ hapart hline]
      exact ih

theorem ofOffset_before (hpq : p < q) (hq : q ≤ text.length) :
    (ofOffset text p).Before (ofOffset text q) := by
  -- on the later offset
  induction q with
  | zero => cases hpq
  | succ q ih =>
    have hnext : (ofOffset text q).Before (ofOffset text (q + 1)) := by
      rw [ofOffset, ofOffset, List.take_succ_eq_append_getElem hq]
      exact after_before_concat first _ _
    rcases Nat.lt_succ_iff_lt_or_eq.mp hpq with hlt | rfl
    · exact (ih hlt (Nat.le_of_succ_le hq)).trans hnext
    · exact hnext

/-- A location is that of one offset only. -/
theorem ofOffset_inj (hp : p ≤ text.length) (hq : q ≤ text.length) :
    ofOffset text p = ofOffset text q ↔ p = q := by
  refine ⟨fun h => ?_, fun h => h ▸ rfl⟩
  rcases Nat.lt_trichotomy p q with hlt | heq | hlt
  · exact absurd h (ofOffset_before hlt hq).ne
  · exact heq
  · exact absurd h.symm (ofOffset_before hlt hp).ne

end Location

/-! ### The text before a token -/

/-- Where the token behind the first `n` ones begins, or where scanning ended if there is none. -/
def Scan.offset (s : Scan) (n : Nat) : Nat := (s.lexemes[n]?.map Lexeme.start).getD s.stop

namespace Lexer

/-- Scanning counts what it leaves behind by what is left of the text. -/
theorem length_sub_of_eq_append {cs taken rest : List Char} (h : cs = taken ++ rest) :
    cs.length - rest.length = taken.length := by
  rw [h, List.length_append, Nat.add_sub_cancel]

/-- The text before a token is made of the tokens before it, and of the blanks and comments that are
skipped before the token. -/
theorem tokenized_before {n pos : Nat} {cs : List Char}
    (hn : n ≤ (scanFrom pos cs).lexemes.length) :
    ∃ before after, cs = before ++ dropLayout after ∧
      (scanFrom pos cs).offset n = pos + before.length ∧
      Tokenized (((scanFrom pos cs).lexemes.take n).map Lexeme.token) before := by
  -- on the tokens that are passed, each with the gap before it
  induction n generalizing pos cs with
  | zero =>
    obtain ⟨gap, hgap, heq⟩ := exists_skipped cs
    refine ⟨gap, cs, heq, ?_, hgap⟩
    cases htoken : token? (dropLayout cs) with
    | none =>
      rw [scanFrom_of_none htoken, length_sub_of_eq_append heq]
      rfl
    | some taken =>
      rw [scanFrom_of_some htoken, length_sub_of_eq_append heq]
      rfl
  | succ n ih =>
    cases htoken : token? (dropLayout cs) with
    | none =>
      rw [scanFrom_of_none htoken] at hn
      cases hn
    | some taken =>
      obtain ⟨t, rest⟩ := taken
      obtain ⟨gap, hgap, heq⟩ := exists_gap htoken
      obtain ⟨hgenuine, hspelled⟩ := genuine_of_token? htoken
      rw [scanFrom_of_some htoken] at hn ⊢
      obtain ⟨before, after, rfl, hoffset, hbefore⟩ := ih (Nat.le_of_succ_le_succ hn)
      -- the token ends where it did in the whole text, or at the end of what is left of it
      have hends : t.EndsBefore before := by
        intro c hc
        refine endsBefore_of_token? htoken c ?_
        rw [List.head?_append, hc]
        rfl
      refine ⟨gap ++ (t.spelling ++ before), after, ?_, ?_, .cons hgap hgenuine hends hbefore⟩
      · rw [List.append_assoc, List.append_assoc, ← hspelled]
        exact heq
      · refine hoffset.trans ?_
        rw [length_sub_of_eq_append heq, length_sub_of_eq_append hspelled, List.length_append,
          List.length_append]
        omega

end Lexer

namespace Reader

variable {text : List Char} {r r' : Reader} {l : Lexeme} {ls : List Lexeme} {o : Nat}

/-! ### What is noted of the tokens -/

/-- The offsets that may be blamed for a later token. -/
def Pending.noted : Pending → List Nat
  | .callParen _ paren | .callNumber _ paren _ | .loopParen _ paren | .loopNumber _ paren _ =>
    [paren]
  | .sensor _ _ name | .sensorDone _ _ name => [name.start]
  | .sensorParen _ _ name paren => [name.start, paren]
  | _ => []

theorem Pending.blame_cases (p : Pending) (next : Nat) :
    p.blame next = next ∨ p.blame next ∈ p.noted := by
  cases p with
  | callNumber | loopNumber => exact .inr List.mem_cons_self
  | sensor negated opened | sensorDone negated opened =>
    cases opened with
    | zero => exact .inl rfl
    | succ opened => exact .inr List.mem_cons_self
  | sensorParen negated opened name paren =>
    cases opened with
    | zero => exact .inr (List.mem_cons_of_mem _ List.mem_cons_self)
    | succ opened => exact .inr List.mem_cons_self
  | _ => exact .inl rfl

theorem noted_complete (s : Statement) (frames : List Frame) (done : List Statement) :
    (complete s frames done).pending.noted = [] := by
  obtain ⟨frames', done', heq, -⟩ := exists_complete s frames done
  rw [heq]
  rfl

theorem Pending.Grows.noted {p p' : Pending} (h : p.Grows l p') :
    p'.noted ⊆ l.start :: p.noted := by
  cases h <;> simp [Pending.noted]

theorem noted_settle (hsettled : r.pending.settled = true) (next : Nat) :
    (r.settle text next).pending.noted = [] := by
  rcases pending_settle text hsettled next with hpending | hpending <;> rw [hpending] <;> rfl

theorem noted_of_opening? {p : Pending} (h : opening? l = some p) : p.noted = [] := by
  obtain ⟨token, start, stop⟩ := l
  cases token <;> cases h <;> rfl

theorem noted_closeBlock? (h : r.closeBlock? text = some r') : r'.pending.noted = [] := by
  obtain ⟨s, frames, done, rfl⟩ | ⟨c, ss, hpending⟩ := closeBlock?_cases h
  · exact noted_complete s frames done
  · rw [hpending]
    rfl

/-- A token adds no offset to those noted but its own. -/
theorem Advance.noted (h : r.Advance text l r') :
    r'.pending.noted ⊆ l.start :: r.pending.noted := by
  have hnone : r'.pending.noted = [] → r'.pending.noted ⊆ l.start :: r.pending.noted :=
    fun hnil => hnil ▸ List.nil_subset _
  cases h with
  | grow grows => exact grows.noted
  | call => exact hnone (noted_complete _ _ _)
  | enter | elseIf => exact hnone rfl
  | opening _ first => exact hnone (noted_of_opening? first)
  | semicolon settled => exact hnone (noted_settle settled l.start)
  | closeBlock _ _ close => exact hnone (noted_closeBlock? close)

/-- Only offsets of tokens that were read are noted. -/
theorem Reads.noted (h : Reads text r ls r') :
    ∀ o ∈ r'.pending.noted, o ∈ r.pending.noted ∨ ∃ l ∈ ls, l.start = o := by
  intro o ho
  -- on the tokens: each hands on what was noted before it, and its own offset at most
  induction h with
  | nil => exact .inl ho
  | @cons r r' r'' l ls hstep _ ih =>
    rcases ih ho with hnoted | ⟨l', hl', rfl⟩
    · rcases List.mem_cons.mp ((advance_iff.mp hstep).noted hnoted) with rfl | hnoted
      · exact .inr ⟨l, List.mem_cons_self, rfl⟩
      · exact .inl hnoted
    · exact .inr ⟨l', List.mem_cons_of_mem l hl', rfl⟩

/-! ### Reading up to the blamed offset -/

theorem Reads.take (h : Reads text r ls r') (n : Nat) : ∃ r'', Reads text r (ls.take n) r'' := by
  induction h generalizing n with
  | @nil r =>
    rw [List.take_nil]
    exact ⟨r, .nil⟩
  | @cons r r' r'' l ls hstep _ ih =>
    cases n with
    | zero => exact ⟨r, .nil⟩
    | succ n =>
      obtain ⟨r₁, hreads⟩ := ih n
      exact ⟨r₁, .cons hstep hreads⟩

/-- Without offsets and notes, the same tokens can be read. -/
theorem Reads.bare (h : Reads text r ls r') : Reads [] r.bare (ls.map Lexeme.bare) r'.bare := by
  induction h with
  | nil => exact .nil
  | @cons r r' r'' l ls hstep _ ih =>
    refine .cons ?_ ih
    rw [← bare_step?, hstep]
    rfl

/-- Reading fails at a token that may not come, or at the end. -/
theorem readAll_eq_error {stop p : Nat} {complete : Bool}
    (h : readAll text stop complete r ls = .error p) :
    ∃ n ≤ ls.length, ∃ r', Reads text r (ls.take n) r' ∧
      p = r'.pending.blame ((ls[n]?.map Lexeme.start).getD stop) := by
  induction ls generalizing r with
  | nil =>
    refine ⟨0, Nat.le_refl 0, r, .nil, ?_⟩
    unfold readAll at h
    split at h
    · cases h
    · exact (Except.error.inj h).symm
  | cons l ls ih =>
    unfold readAll at h
    split at h
    · next r₁ hstep =>
      obtain ⟨n, hn, r', hreads, hp⟩ := ih h
      exact ⟨n + 1, Nat.succ_le_succ hn, r', .cons hstep hreads, hp⟩
    · exact ⟨0, Nat.zero_le _, r, .nil, (Except.error.inj h).symm⟩

end Reader

/-- The offset that is blamed is that of a token or of the end, and the tokens before it can be
read. -/
theorem readStatements_error {text : List Char} {p : Nat} (h : readStatements text = .error p) :
    ∃ n ≤ (Lexer.scan text).lexemes.length, p = (Lexer.scan text).offset n ∧
      ∃ r, Reader.Reads text {} ((Lexer.scan text).lexemes.take n) r := by
  obtain ⟨n, hn, r, hreads, hp⟩ := Reader.readAll_eq_error h
  rcases r.pending.blame_cases ((Lexer.scan text).offset n) with hnext | hnoted
  · exact ⟨n, hn, hp.trans hnext, r, hreads⟩
  · -- a parenthesis or a sensor is blamed, which is among the tokens that were read
    rcases hreads.noted _ hnoted with hempty | ⟨l, hl, hstart⟩
    · cases hempty
    · obtain ⟨m, hm, rfl⟩ := List.mem_take_iff_getElem.mp hl
      have hlength : m < (Lexer.scan text).lexemes.length :=
        Nat.lt_of_lt_of_le hm (Nat.min_le_right _ _)
      have hoffset : (Lexer.scan text).offset m = (Lexer.scan text).lexemes[m].start := by
        rw [Scan.offset, List.getElem?_eq_getElem hlength]
        rfl
      obtain ⟨r', hreads'⟩ := hreads.take m
      rw [List.take_take, Nat.min_eq_left (by omega)] at hreads'
      exact ⟨m, Nat.le_of_lt hlength, hp.trans (hstart.symm.trans hoffset.symm), r', hreads'⟩

/-! ### The text up to the blamed offset -/

/-- Proper tokens can be laid out as a text. -/
theorem exists_layout (ts : List Token) : ∃ text, Layout ts text := by
  induction ts with
  | nil => exact ⟨[], .nil isGap_nil⟩
  | cons t ts ih =>
    obtain ⟨rest, h⟩ := ih
    exact ⟨_, h.spaced t⟩

/-- A text is the beginning of a program if a reader takes its tokens. -/
theorem exists_parse_append {text : List Char} {ls : List Lexeme} {start : String} {r : Reader}
    (h : Reader.Reads text {} ls r) (hstart : Tokenized (ls.map Lexeme.token) start.toList) :
    ∃ t ss, parseStatements (start ++ t) = .ok ss := by
  have hbare : Reader.Reads [] {} ((ls.map Lexeme.token).map fun t => ⟨t, 0, 0⟩) r.bare := by
    rw [List.map_map]
    exact h.bare
  obtain ⟨us, hproper, ss, hread⟩ := exists_readTokens_append hbare
  obtain ⟨rest, hlayout⟩ := exists_layout us
  -- the text may end within a comment, so the rest begins on a line of its own
  have htext : (start ++ String.ofList ('\n' :: rest)).toList = start.toList ++ '\n' :: rest := by
    rw [String.toList_append, String.toList_ofList]
  have hjoined : Tokenized (ls.map Lexeme.token ++ us)
      (start ++ String.ofList ('\n' :: rest)).toList :=
    htext ▸ hstart.append_line (hlayout.spaced_of_proper hproper).tokenized
  obtain ⟨ss', hparse, -⟩ := exists_parse_of_readTokens hjoined hread
  exact ⟨_, ss', hparse⟩

theorem parseStatements_eq_error_iff {source : String} {e : ProgramError} :
    parseStatements source = .error e ↔
      ∃ p, readStatements source.toList = .error p ∧ e = .ofOffset source.toList p := by
  unfold parseStatements
  cases readStatements source.toList with
  | ok ss => simp
  | error p => simp [eq_comm]

/-- A text that is no program is blamed on one of its offsets, which the reported line and column
tell from all others, and the text before it is the beginning of a program. -/
theorem syntax_errors_after_viable_prefix {source : String} {e : ProgramError}
    (h : parseStatements source = .error e) :
    ∃ p ≤ source.toList.length, e = .ofOffset source.toList p ∧
      (∀ q ≤ source.toList.length,
        Location.ofOffset source.toList q = Location.ofOffset source.toList p → q = p) ∧
      ∃ t ss, parseStatements (String.ofList (source.toList.take p) ++ t) = .ok ss := by
  obtain ⟨p, hread, rfl⟩ := parseStatements_eq_error_iff.mp h
  obtain ⟨n, hn, rfl, r, hreads⟩ := readStatements_error hread
  -- the text splits where the blamed token begins
  obtain ⟨before, after, hsplit, hoffset, hbefore⟩ := Lexer.tokenized_before hn
  rw [Nat.zero_add] at hoffset
  have hle : before.length ≤ source.toList.length := by
    rw [hsplit, List.length_append]
    exact Nat.le_add_right _ _
  have htake : source.toList.take before.length = before := by
    rw [hsplit, List.take_left]
  rw [Lexer.scan, hoffset]
  refine ⟨before.length, hle, rfl, fun q hq => (Location.ofOffset_inj hq hle).mp, ?_⟩
  rw [htake]
  exact exists_parse_append hreads (by rwa [String.toList_ofList])

/-- The last of three parentheses in the condition after `else` is left open: the sensor is
blamed. -/
theorem syntax_errors_after_viable_prefix_open_condition :
    let source := "if onFire \x7b forward 2 \x7d else if (((!onFire()) ) \x7b left \x7d"
    parseStatements source = .error (.unrecognized "onFire())" ⟨1, 37⟩) ∧
      ∃ p ≤ source.toList.length,
        ProgramError.unrecognized "onFire())" ⟨1, 37⟩ = .ofOffset source.toList p ∧
        (∀ q ≤ source.toList.length,
          Location.ofOffset source.toList q = Location.ofOffset source.toList p → q = p) ∧
        ∃ t ss, parseStatements (String.ofList (source.toList.take p) ++ t) = .ok ss := by
  intro source
  have h : parseStatements source = .error (.unrecognized "onFire())" ⟨1, 37⟩) := by
    decide +kernel
  exact ⟨h, syntax_errors_after_viable_prefix h⟩

end RobotPuzzle
