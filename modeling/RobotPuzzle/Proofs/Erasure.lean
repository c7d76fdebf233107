import RobotPuzzle.Program.Compile
import RobotPuzzle.Proofs.Advancing
import RobotPuzzle.Proofs.Spacing

/-!
# What reading takes from the layout of a text

A syntax tree notes where its parts stand in the text, and a call also what the player wrote. A
reader keeps the offsets for these notes in its state, but never looks at them: without the notes it
goes on in the same way. So apart from them the tree depends on nothing but the tokens, and as
compiling uses the notes for its error messages only, neither do the commands.

## Main definitions

* `Statement.bare`, `bareBlock` — statements without the notes
* `Reader.bare` — a reader without offsets
* `readTokens` — the bare statements that tokens are read as
* `ProgramError.kind`, `SameKind` — what an error says apart from the place it names

## Main results

* `Reader.Advance.bare`, `Reader.bare_step?` — without offsets, a reader goes on in the same way
* `readStatements_of_tokenized` — but for notes, reading gives what the tokens are read as
* `sameKind_compile` — compiling does not depend on notes
* `layout_does_not_matter` — two ways to lay out the same tokens come to the same
-/

namespace RobotPuzzle

/-! ### Statements without notes -/

/-- A condition that does not say where its sensor stands. -/
def Condition.bare (c : Condition) : Condition := { c with location := .first }

mutual

/-- A statement without locations, and without the texts of calls. -/
def Statement.bare : Statement → Statement
  | .call name argument _ _ => .call name argument "" .first
  | .loop count body _ => .loop count (bareBlock body) .first
  | .branch condition thenBlock elseBlock =>
    .branch condition.bare (bareBlock thenBlock) (bareElse elseBlock)

/-- The block after `else` without notes, if there is one. -/
def bareElse : Option (List Statement) → Option (List Statement)
  | none => none
  | some block => some (bareBlock block)

/-- Statements without notes. -/
def bareBlock : List Statement → List Statement
  | [] => []
  | s :: ss => s.bare :: bareBlock ss

end

theorem bareBlock_append (ss ts : List Statement) :
    bareBlock (ss ++ ts) = bareBlock ss ++ bareBlock ts := by
  induction ss with
  | nil => rfl
  | cons s ss ih => simp only [List.cons_append, bareBlock, ih]

theorem bareBlock_reverse (ss : List Statement) :
    bareBlock ss.reverse = (bareBlock ss).reverse := by
  induction ss with
  | nil => rfl
  | cons s ss ih => simp only [List.reverse_cons, bareBlock, bareBlock_append, ih]

/-! ### Readers without offsets -/

/-- A word without offsets. -/
def Word.bare (w : Word) : Word := ⟨w.name, 0, 0⟩

/-- A lexeme without offsets. -/
def Lexeme.bare (l : Lexeme) : Lexeme := ⟨l.token, 0, 0⟩

namespace Reader

/-- A statement under way, without offsets and notes. -/
def Pending.bare : Pending → Pending
  | .nothing => .nothing
  | .separator => .separator
  | .call name => .call name.bare
  | .callParen name _ => .callParen name.bare 0
  | .callNumber name _ digits => .callNumber name.bare 0 digits
  | .loop _ => .loop 0
  | .loopParen _ _ => .loopParen 0 0
  | .loopNumber _ _ digits => .loopNumber 0 0 digits
  | .loopCount _ count => .loopCount 0 count
  | .condition negated opened => .condition negated opened
  | .sensor negated opened name => .sensor negated opened name.bare
  | .sensorParen negated opened name _ => .sensorParen negated opened name.bare 0
  | .sensorDone negated opened name => .sensorDone negated opened name.bare
  | .thenDone c ss => .thenDone c.bare (bareBlock ss)
  | .elseBranch c ss => .elseBranch c.bare (bareBlock ss)

/-- An open block without offsets and notes. -/
def Frame.bare : Frame → Frame
  | .loop _ count before => .loop 0 count (bareBlock before)
  | .thenBlock c before => .thenBlock c.bare (bareBlock before)
  | .elseBlock c ss before => .elseBlock c.bare (bareBlock ss) (bareBlock before)
  | .elseIf c ss before => .elseIf c.bare (bareBlock ss) (bareBlock before)

/-- A reader without offsets and notes. -/
def bare (r : Reader) : Reader where
  frames := r.frames.map Frame.bare
  done := bareBlock r.done
  pending := r.pending.bare

variable (text : List Char)

theorem bare_complete (s : Statement) (frames : List Frame) (done : List Statement) :
    (complete s frames done).bare = complete s.bare (frames.map Frame.bare) (bareBlock done) := by
  -- on the open blocks: a branch after `else` completes the one around it, and so on outwards
  induction frames generalizing s done with
  | nil => rfl
  | cons frame frames ih =>
    cases frame with
    | elseIf condition thenBlock before =>
      exact ih (.branch condition thenBlock (some [s])) before
    | loop | thenBlock | elseBlock => rfl

theorem bare_push (r : Reader) (s : Statement) : (r.push s).bare = r.bare.push s.bare :=
  bare_complete s r.frames r.done

theorem bare_settle (r : Reader) (next : Nat) :
    (r.settle text next).bare = r.bare.settle [] 0 := by
  obtain ⟨frames, done, pending⟩ := r
  cases pending with
  -- of all statements under way, only these two may lack nothing
  | call name => exact bare_push _ _
  | thenDone condition thenBlock => exact bare_push _ _
  | _ => rfl

theorem bare_closeBlock? (r : Reader) : (r.closeBlock? text).map bare = r.bare.closeBlock? [] := by
  obtain ⟨frames, done, pending⟩ := r
  cases frames with
  | nil => rfl
  | cons frame frames =>
    simp only [closeBlock?, bare, List.map_cons]
    cases frame with
    | loop start count before =>
      simp only [Frame.bare, Option.map_some, bare_complete, Statement.bare, bareBlock_reverse]
      rfl
    | thenBlock condition before =>
      simp only [Frame.bare, Option.map_some, bare, Pending.bare, bareBlock_reverse]
    | elseBlock condition thenBlock before =>
      simp only [Frame.bare, Option.map_some, bare_complete, Statement.bare, bareElse,
        bareBlock_reverse]
    | elseIf => rfl

theorem settled_bare (r : Reader) : r.bare.pending.settled = r.pending.settled := by
  obtain ⟨frames, done, pending⟩ := r
  cases pending <;> rfl

section Bare

variable {text : List Char} {r r' : Reader} {l : Lexeme}

theorem Pending.bare_grows_iff {p q : Pending} :
    p.bare.Grows l.bare q ↔ ∃ p', p.Grows l p' ∧ p'.bare = q := by
  obtain ⟨token, start, stop⟩ := l
  constructor
  · intro h
    cases p <;> cases h <;> exact ⟨_, by constructor, rfl⟩
  · rintro ⟨p', h, rfl⟩
    cases h <;> constructor

theorem Pending.bare_calls_iff {p : Pending} {name : Word} {argument : Option String} :
    p.bare.Calls l.bare name argument ↔ ∃ name', p.Calls l name' argument ∧ name'.bare = name := by
  obtain ⟨token, start, stop⟩ := l
  constructor
  · intro h
    cases p <;> cases h <;> exact ⟨_, by constructor, rfl⟩
  · rintro ⟨name', h, rfl⟩
    cases h <;> constructor

theorem Pending.bare_enters_iff {p : Pending} {done : List Statement} {frame : Frame} :
    p.bare.Enters [] (bareBlock done) l.bare frame ↔
      ∃ frame', p.Enters text done l frame' ∧ frame'.bare = frame := by
  obtain ⟨token, start, stop⟩ := l
  constructor
  · intro h
    cases p <;> cases h <;> exact ⟨_, by constructor, rfl⟩
  · rintro ⟨frame', h, rfl⟩
    cases h <;> constructor

theorem opening?_bare (l : Lexeme) : opening? l.bare = (opening? l).map Pending.bare := by
  obtain ⟨token, start, stop⟩ := l
  cases token <;> rfl

theorem Pending.bare_eq_separator_iff {p : Pending} : p.bare = .separator ↔ p = .separator := by
  cases p <;> simp [Pending.bare]

/-- Without offsets, a token does the same. -/
theorem Advance.bare (h : r.Advance text l r') : r.bare.Advance [] l.bare r'.bare := by
  have hsettle : (r.settle text l.start).bare = r.bare.settle [] l.bare.start :=
    bare_settle text r l.start
  cases h with
  | grow grows => exact .grow (Pending.bare_grows_iff.mpr ⟨_, grows, rfl⟩)
  | @call name argument calls =>
    have hpush : (r.push (callOf text name argument l.stop)).bare =
        r.bare.push (callOf [] name.bare argument l.bare.stop) := bare_push _ _
    rw [hpush]
    exact .call (Pending.bare_calls_iff.mpr ⟨_, calls, rfl⟩)
  | enter enters => exact .enter (Pending.bare_enters_iff.mpr ⟨_, enters, rfl⟩)
  | elseIf branch word => exact .elseIf (congrArg Pending.bare branch) word
  | @opening p settled first =>
    have hbare : ({ r.settle text l.start with pending := p } : Reader).bare =
        { (r.settle text l.start).bare with pending := p.bare } := rfl
    rw [hbare, hsettle]
    exact .opening (r.settled_bare ▸ settled) (opening?_bare l ▸ congrArg _ first)
  | semicolon settled separator mark =>
    rw [hsettle]
    exact .semicolon (r.settled_bare ▸ settled)
      (hsettle ▸ Pending.bare_eq_separator_iff.mpr separator) mark
  | closeBlock settled mark close =>
    refine .closeBlock (r.settled_bare ▸ settled) mark ?_
    rw [← hsettle, ← bare_closeBlock? text, close]
    rfl

/-- Without offsets, a token does nothing that it would not do with them. -/
theorem Advance.of_bare {q : Reader} (h : r.bare.Advance [] l.bare q) :
    ∃ r', r.Advance text l r' ∧ r'.bare = q := by
  have hsettle : (r.settle text l.start).bare = r.bare.settle [] l.bare.start :=
    bare_settle text r l.start
  cases h with
  | grow grows =>
    obtain ⟨p, hp, rfl⟩ := Pending.bare_grows_iff.mp grows
    exact ⟨_, .grow hp, rfl⟩
  | call calls =>
    obtain ⟨name, hname, rfl⟩ := Pending.bare_calls_iff.mp calls
    exact ⟨_, .call hname, bare_push _ _⟩
  | enter enters =>
    obtain ⟨frame, hframe, rfl⟩ := Pending.bare_enters_iff.mp enters
    exact ⟨_, .enter hframe, rfl⟩
  | elseIf branch word =>
    obtain ⟨frames, done, pending⟩ := r
    cases pending <;> cases branch
    exact ⟨_, .elseIf rfl word, rfl⟩
  | opening settled first =>
    rw [opening?_bare, Option.map_eq_some_iff] at first
    obtain ⟨p, hp, rfl⟩ := first
    refine ⟨_, .opening (r.settled_bare ▸ settled) hp, ?_⟩
    rw [← hsettle]
    rfl
  | semicolon settled separator mark =>
    rw [← hsettle] at separator
    exact ⟨_, .semicolon (r.settled_bare ▸ settled)
      (Pending.bare_eq_separator_iff.mp separator) mark, hsettle⟩
  | closeBlock settled mark close =>
    rw [← hsettle, ← bare_closeBlock? text, Option.map_eq_some_iff] at close
    obtain ⟨r', hr', rfl⟩ := close
    exact ⟨r', .closeBlock (r.settled_bare ▸ settled) mark hr', rfl⟩

end Bare

/-- Without offsets, a reader goes on in the same way. -/
theorem bare_step? (r : Reader) (l : Lexeme) :
    (r.step? text l).map bare = r.bare.step? [] l.bare := by
  ext q
  rw [Option.map_eq_some_iff, advance_iff]
  constructor
  · rintro ⟨r', hstep, rfl⟩
    exact (advance_iff.mp hstep).bare
  · intro h
    obtain ⟨r', hadvance, rfl⟩ := h.of_bare
    exact ⟨r', advance_iff.mpr hadvance, rfl⟩

theorem bare_close? (r : Reader) (stop : Nat) :
    (r.close? text stop).map bareBlock = r.bare.close? [] 0 := by
  unfold close?
  rw [settled_bare]
  by_cases hsettled : r.pending.settled = true
  · rw [if_pos hsettled, if_pos hsettled, ← bare_settle text r stop]
    obtain ⟨frames, done, pending⟩ := r.settle text stop
    cases frames with
    | nil => exact congrArg some (bareBlock_reverse done)
    | cons frame frames => rfl
  · rw [if_neg hsettled, if_neg hsettled]
    rfl

theorem bare_readAll (stop : Nat) (complete : Bool) (r : Reader) (ls : List Lexeme) :
    (readAll text stop complete r ls).toOption.map bareBlock =
      (readAll [] 0 complete r.bare (ls.map Lexeme.bare)).toOption := by
  induction ls generalizing r with
  | nil =>
    have hclose := bare_close? text r stop
    cases complete with
    | false => rfl
    | true =>
      simp only [List.map_nil, readAll, if_true, ← hclose]
      cases r.close? text stop <;> rfl
  | cons l ls ih =>
    have hstep := bare_step? text r l
    simp only [List.map_cons, readAll, ← hstep]
    cases r.step? text l with
    | some r' => exact ih r'
    | none => rfl

end Reader

/-! ### Reading tokens -/

/-- The bare statements that tokens are read as, if they are those of a program. -/
def readTokens (ts : List Token) : Option (List Statement) :=
  (Reader.readAll [] 0 true {} (ts.map fun t => ⟨t, 0, 0⟩)).toOption

/-- But for notes, reading a text gives what its tokens are read as. -/
theorem readStatements_of_tokenized {ts : List Token} {text : List Char} (h : Tokenized ts text) :
    (readStatements text).toOption.map bareBlock = readTokens ts := by
  obtain ⟨htokens, hcomplete⟩ := scan_of_tokenized h
  have hlexemes : (Lexer.scan text).lexemes.map Lexeme.bare = ts.map fun t => ⟨t, 0, 0⟩ := by
    rw [← htokens, List.map_map]
    rfl
  rw [readStatements, Reader.bare_readAll, hlexemes, hcomplete]
  rfl

theorem parseStatements_of_tokenized {ts : List Token} {source : String}
    (h : Tokenized ts source.toList) :
    (parseStatements source).toOption.map bareBlock = readTokens ts := by
  rw [← readStatements_of_tokenized h, parseStatements]
  cases readStatements source.toList <;> rfl

/-- A text is a program if its tokens are those of one. -/
theorem exists_parse_of_readTokens {ts : List Token} {source : String} {ss : List Statement}
    (h : Tokenized ts source.toList) (hread : readTokens ts = some ss) :
    ∃ us, parseStatements source = .ok us ∧ bareBlock us = ss := by
  have hparse := parseStatements_of_tokenized h
  rw [hread] at hparse
  cases hresult : parseStatements source with
  | error e =>
    rw [hresult] at hparse
    cases hparse
  | ok us =>
    rw [hresult] at hparse
    exact ⟨us, rfl, Option.some.inj hparse⟩

theorem parseStatements_of_spaced {ts : List Token} {source : String}
    (h : Spaced ts source.toList) :
    (parseStatements source).toOption.map bareBlock = readTokens ts :=
  parseStatements_of_tokenized h.tokenized

/-! ### Compiling -/

/-- What an error says, apart from the fragment and the place it names. -/
inductive ProgramError.Kind
  | unrecognized
  | argument (fault : ArgumentFault)
  | overBudget (required budget : Nat)
  deriving DecidableEq, Repr

/-- The kind of an error. -/
def ProgramError.kind : ProgramError → Kind
  | unrecognized _ _ => .unrecognized
  | argument _ _ fault => .argument fault
  | overBudget required budget => .overBudget required budget

/-- The same answer, or two errors of the same kind. -/
inductive SameKind {α : Type} : Except ProgramError α → Except ProgramError α → Prop
  | ok (a : α) : SameKind (.ok a) (.ok a)
  | error {e e' : ProgramError} (kind : e.kind = e'.kind) : SameKind (.error e) (.error e')

namespace SameKind

variable {α β : Type} {x x' : Except ProgramError α}

theorem refl (x : Except ProgramError α) : SameKind x x := by
  cases x with
  | ok a => exact .ok a
  | error e => exact .error rfl

theorem symm (h : SameKind x x') : SameKind x' x := by
  cases h with
  | ok a => exact .ok a
  | error kind => exact .error kind.symm

theorem trans {x'' : Except ProgramError α} (h : SameKind x x') (h' : SameKind x' x'') :
    SameKind x x'' := by
  cases h with
  | ok a => exact h'
  | error kind =>
    cases h' with
    | error kind' => exact .error (kind.trans kind')

theorem eq_ok {a : α} (h : SameKind x (.ok a)) : x = .ok a := by
  cases h
  rfl

theorem eq_overBudget {required budget : Nat}
    (h : SameKind x (.error (.overBudget required budget))) :
    x = .error (.overBudget required budget) := by
  cases h with
  | @error e e' kind =>
    -- no other error is of this kind, and this one names no place
    cases e <;> cases kind
    rfl

/-- What follows goes on with the same value. -/
theorem bind {f f' : α → Except ProgramError β} (h : SameKind x x')
    (hf : ∀ a, SameKind (f a) (f' a)) : SameKind (x >>= f) (x' >>= f') := by
  cases h with
  | ok a => exact hf a
  | error kind => exact .error kind

end SameKind

section Compile

variable {digits fragment fragment' : String} {line line' n : Nat}

theorem sameKind_positive :
    SameKind (positive digits fragment line) (positive digits fragment' line') := by
  unfold positive
  dsimp only
  split
  · exact .error rfl
  · split
    · exact .error rfl
    · exact .ok _

theorem sameKind_checkAtMost :
    SameKind (checkAtMost n fragment line) (checkAtMost n fragment' line') := by
  unfold checkAtMost
  split
  · exact .error rfl
  · exact .ok ()

theorem sameKind_compileCall (name : String) (argument : Option String) (text text' : String)
    (l l' : Location) (m : Meter) :
    SameKind (compileCall name argument text l m) (compileCall name argument text' l' m) := by
  unfold compileCall
  cases Verb.ofName? name with
  | none => exact .error rfl
  | some verb =>
    cases verb with
    | move heading =>
      cases argument with
      | none => exact .error rfl
      | some digits =>
        refine sameKind_positive.bind fun n => ?_
        refine (SameKind.refl (m.charge n)).bind fun m' => ?_
        exact sameKind_checkAtMost.bind fun _ => .refl _
    | plain action =>
      cases argument with
      | none => exact .refl _
      | some digits => exact .error rfl

mutual

/-- Compiling a statement does not depend on its notes. -/
theorem sameKind_compile (s : Statement) (m : Meter) :
    SameKind (s.compile m) (s.bare.compile m) := by
  cases s with
  | call name argument text l =>
    simp only [Statement.bare, Statement.compile]
    exact (sameKind_compileCall name argument text "" l .first m).bind fun _ => .refl _
  | loop count body l =>
    simp only [Statement.bare, Statement.compile]
    -- only the errors about the count name a place
    refine sameKind_positive.bind fun n => ?_
    refine (sameKind_compileBlock body m).bind fun r => ?_
    refine (SameKind.refl _).bind fun m' => ?_
    exact sameKind_checkAtMost.bind fun _ => .refl _
  | branch condition thenBlock elseBlock =>
    simp only [Statement.bare, Statement.compile, Condition.bare]
    split
    · refine (sameKind_compileBlock thenBlock m).bind fun r => ?_
      exact (sameKind_compileElse elseBlock m).bind fun r' => .refl _
    · exact .error rfl

theorem sameKind_compileElse (block? : Option (List Statement)) (m : Meter) :
    SameKind (compileElse block? m) (compileElse (bareElse block?) m) := by
  cases block? with
  | none => exact .refl _
  | some block => exact sameKind_compileBlock block m

theorem sameKind_compileBlock (ss : List Statement) (m : Meter) :
    SameKind (compileBlock ss m) (compileBlock (bareBlock ss) m) := by
  cases ss with
  | nil => exact .refl _
  | cons s ss =>
    simp only [bareBlock, compileBlock]
    refine (sameKind_compile s m).bind fun r => ?_
    exact (sameKind_compileBlock ss r.2).bind fun r' => .refl _

end

/-- A text that is read compiles as its statements do without notes. -/
theorem sameKind_parse {source : String} {ss : List Statement}
    (h : parseStatements source = .ok ss) (budget : Nat) :
    SameKind (parse source budget) (compile (bareBlock ss) budget) := by
  rw [parse, h]
  exact (sameKind_compileBlock ss _).bind fun r => .refl _

/-- The errors of reading are all of one kind. -/
theorem kind_of_parseStatements {source : String} {e : ProgramError}
    (h : parseStatements source = .error e) : e.kind = .unrecognized := by
  unfold parseStatements at h
  split at h
  · cases h
  · cases h
    rfl

end Compile

/-- However the same tokens are laid out, with blanks and comments wherever they may stand, the text
is rejected or it is accepted. If it is accepted, its trees are the same but for what they note of
the text, and under every budget its commands are the same, or the errors are of the same kind. -/
theorem layout_does_not_matter (a b : Arrangement) (h : a.tokens = b.tokens) :
    let source := String.ofList a.text
    let source' := String.ofList b.text
    ((∃ e e', parseStatements source = .error e ∧ parseStatements source' = .error e') ∨
        ∃ ss ss', parseStatements source = .ok ss ∧ parseStatements source' = .ok ss' ∧
          bareBlock ss = bareBlock ss') ∧
      ∀ budget, SameKind (parse source budget) (parse source' budget) := by
  intro source source'
  have hread : (parseStatements source).toOption.map bareBlock = readTokens a.tokens :=
    parseStatements_of_spaced (String.toList_ofList ▸ a.spaced)
  have hread' : (parseStatements source').toOption.map bareBlock = readTokens a.tokens := by
    rw [h]
    exact parseStatements_of_spaced (String.toList_ofList ▸ b.spaced)
  -- both readings give the same tree without notes, or none
  have hsame := hread.trans hread'.symm
  cases hss : parseStatements source with
  | error e =>
    cases hss' : parseStatements source' with
    | error e' =>
      refine ⟨.inl ⟨e, e', rfl, rfl⟩, fun budget => ?_⟩
      rw [parse, parse, hss, hss']
      exact .error ((kind_of_parseStatements hss).trans (kind_of_parseStatements hss').symm)
    | ok ss' =>
      rw [hss, hss'] at hsame
      cases hsame
  | ok ss =>
    cases hss' : parseStatements source' with
    | error e' =>
      rw [hss, hss'] at hsame
      cases hsame
    | ok ss' =>
      rw [hss, hss'] at hsame
      have hbare : bareBlock ss = bareBlock ss' := Option.some.inj hsame
      refine ⟨.inr ⟨ss, ss', rfl, rfl, hbare⟩, fun budget => ?_⟩
      have hcompile' := sameKind_parse hss' budget
      rw [← hbare] at hcompile'
      exact (sameKind_parse hss budget).trans hcompile'.symm

/-- A branch written as tightly as possible, and one with comments that hold words, marks and the
beginnings of other comments. -/
theorem layout_does_not_matter_in_comments :
    ∃ a b : Arrangement, a.tokens = b.tokens ∧
      String.ofList a.text = "if!onFire\x7bforward 3\x7d" ∧
      String.ofList b.text =
        "# if \x7b\nif/* else // */!\tonFire//\x7d /*\r\n\x7bforward/**/3 \x7d" ∧
      parse (String.ofList a.text) 3 = .ok [.branch true [.act (.move .forward 3)] []] ∧
      ∀ budget, SameKind (parse (String.ofList a.text) budget)
        (parse (String.ofList b.text) budget) := by
  let a : Arrangement :=
    { lead := []
      parts := [(.ifWord, []), (.bang, []), (.word "onFire", []), (.openBrace, []),
        (.word "forward", [' ']), (.number "3", []), (.closeBrace, [])]
      lead_filler := .nil
      filler := by
        simp only [List.forall_mem_cons]
        exact ⟨.nil, .nil, .nil, .nil, .blank rfl .nil, .nil, .nil, nofun⟩
      genuine := by
        simp only [List.forall_mem_cons]
        exact ⟨trivial, trivial, ⟨⟨rfl, rfl⟩, rfl⟩, trivial, ⟨⟨rfl, rfl⟩, rfl⟩, ⟨rfl, rfl⟩,
          trivial, nofun⟩
      apart := by decide +kernel }
  let b : Arrangement :=
    { lead := '#' :: (" if \x7b".toList ++ ['\n'])
      parts := [(.ifWord, '/' :: '*' :: (" else // ".toList ++ ['*', '/'])), (.bang, ['\t']),
        (.word "onFire", '/' :: '/' :: ("\x7d /*\r".toList ++ ['\n'])), (.openBrace, []),
        (.word "forward", ['/', '*', '*', '/']), (.number "3", [' ']), (.closeBrace, [])]
      lead_filler := IsComment.filler (.hash (by decide +kernel))
      filler := by
        simp only [List.forall_mem_cons]
        exact ⟨IsComment.filler (.block (by decide +kernel)), .blank rfl .nil,
          IsComment.filler (.slashes (by decide +kernel)), .nil,
          IsComment.filler (@IsComment.block [] (by decide)), .blank rfl .nil, .nil, nofun⟩
      genuine := by
        simp only [List.forall_mem_cons]
        exact ⟨trivial, trivial, ⟨⟨rfl, rfl⟩, rfl⟩, trivial, ⟨⟨rfl, rfl⟩, rfl⟩, ⟨rfl, rfl⟩,
          trivial, nofun⟩
      apart := by decide +kernel }
  have htight : String.ofList a.text = "if!onFire\x7bforward 3\x7d" := by decide +kernel
  have hloose : String.ofList b.text =
      "# if \x7b\nif/* else // */!\tonFire//\x7d /*\r\n\x7bforward/**/3 \x7d" := by
    decide +kernel
  have hparse : parse (String.ofList a.text) 3 =
      .ok [.branch true [.act (.move .forward 3)] []] := by
    decide +kernel
  exact ⟨a, b, rfl, htight, hloose, hparse, (layout_does_not_matter a b rfl).2⟩

end RobotPuzzle
