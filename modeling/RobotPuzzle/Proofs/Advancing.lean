import RobotPuzzle.Program.Reader

/-!
# What a token does to a reader

A token that a reader takes does one of a few things. It goes on with the statement under way: as
one more part of it, as the last token of a call, or by leading into a block. Or the statement under
way lacks nothing, so that it is complete: then the token begins another one, stands as a semicolon
behind it, or closes the block. Everything that holds of a reader all the way through a text is
proved by these cases.

## Main definitions

* `Reader.opening?` — what is under way after the first token of a statement
* `Reader.Pending.expects` — whether a token goes on with a statement
* `Reader.Pending.Grows`, `Reader.Pending.Calls`, `Reader.Pending.Enters` — the tokens that go on
  with a statement
* `Reader.Advance` — the reader that a token leads to

## Main results

* `Reader.continue?_eq_none_iff` — no other token goes on with a statement
* `Reader.step?_eq_some_iff` — a token goes on with a statement or begins something behind it
* `Reader.advance_iff` — a reader takes a token just if the token advances it
-/

namespace RobotPuzzle

/-- Whether a token is a name. -/
def Token.isName : Token → Bool
  | word _ => true
  | _ => false

/-- Whether a token is a number. -/
def Token.isNumber : Token → Bool
  | number _ => true
  | _ => false

namespace Reader

variable {text : List Char} {r r' : Reader} {l : Lexeme}

/-- What is under way after the first token of a statement. -/
def opening? (l : Lexeme) : Option Pending :=
  match l.token with
  | .word name => some (.call ⟨name, l.start, l.stop⟩)
  | .repeatWord => some (.loop l.start)
  | .ifWord => some (.condition false 0)
  | _ => none

/-! ### Going on with a statement -/

/-- The token is one more part of the statement under way. -/
inductive Pending.Grows : Pending → Lexeme → Pending → Prop
  | callParen {name : Word} {start stop : Nat} :
    Grows (.call name) ⟨.openParen, start, stop⟩ (.callParen name start)
  | callNumber {name : Word} {paren start stop : Nat} {digits : String} :
    Grows (.callParen name paren) ⟨.number digits, start, stop⟩ (.callNumber name paren digits)
  | loopBare {first start stop : Nat} {count : String} :
    Grows (.loop first) ⟨.number count, start, stop⟩ (.loopCount first count)
  | loopParen {first start stop : Nat} :
    Grows (.loop first) ⟨.openParen, start, stop⟩ (.loopParen first start)
  | loopNumber {first paren start stop : Nat} {count : String} :
    Grows (.loopParen first paren) ⟨.number count, start, stop⟩ (.loopNumber first paren count)
  | loopGrouped {first paren start stop : Nat} {count : String} :
    Grows (.loopNumber first paren count) ⟨.closeParen, start, stop⟩ (.loopCount first count)
  | negation {negated : Bool} {opened start stop : Nat} :
    Grows (.condition negated opened) ⟨.bang, start, stop⟩ (.condition (!negated) opened)
  | grouping {negated : Bool} {opened start stop : Nat} :
    Grows (.condition negated opened) ⟨.openParen, start, stop⟩ (.condition negated (opened + 1))
  | sensor {negated : Bool} {opened start stop : Nat} {name : String} :
    Grows (.condition negated opened) ⟨.word name, start, stop⟩
      (.sensor negated opened ⟨name, start, stop⟩)
  | sensorParen {negated : Bool} {opened start stop : Nat} {name : Word} :
    Grows (.sensor negated opened name) ⟨.openParen, start, stop⟩
      (.sensorParen negated opened name start)
  | sensorCalled {negated : Bool} {opened paren start stop : Nat} {name : Word} :
    Grows (.sensorParen negated opened name paren) ⟨.closeParen, start, stop⟩
      (.sensorDone negated opened name)
  | sensorGrouped {negated : Bool} {opened start stop : Nat} {name : Word} :
    Grows (.sensor negated (opened + 1) name) ⟨.closeParen, start, stop⟩
      (.sensorDone negated opened name)
  | grouped {negated : Bool} {opened start stop : Nat} {name : Word} :
    Grows (.sensorDone negated (opened + 1) name) ⟨.closeParen, start, stop⟩
      (.sensorDone negated opened name)
  | elseWord {c : Condition} {ss : List Statement} {start stop : Nat} :
    Grows (.thenDone c ss) ⟨.elseWord, start, stop⟩ (.elseBranch c ss)

/-- The token is the last one of a call with an argument or parentheses. -/
inductive Pending.Calls : Pending → Lexeme → Word → Option String → Prop
  | bare {name : Word} {start stop : Nat} {digits : String} :
    Calls (.call name) ⟨.number digits, start, stop⟩ name (some digits)
  | parens {name : Word} {paren start stop : Nat} :
    Calls (.callParen name paren) ⟨.closeParen, start, stop⟩ name none
  | grouped {name : Word} {paren start stop : Nat} {digits : String} :
    Calls (.callNumber name paren digits) ⟨.closeParen, start, stop⟩ name (some digits)

variable (text) in
/-- The token leads into a block, whose frame keeps the statements `done` before it. -/
inductive Pending.Enters (done : List Statement) : Pending → Lexeme → Frame → Prop
  | loop {first start stop : Nat} {count : String} :
    Enters done (.loopCount first count) ⟨.openBrace, start, stop⟩ (.loop first count done)
  | sensor {negated : Bool} {name : Word} {start stop : Nat} :
    Enters done (.sensor negated 0 name) ⟨.openBrace, start, stop⟩
      (.thenBlock ⟨negated, name.name, .ofOffset text name.start⟩ done)
  | sensorDone {negated : Bool} {name : Word} {start stop : Nat} :
    Enters done (.sensorDone negated 0 name) ⟨.openBrace, start, stop⟩
      (.thenBlock ⟨negated, name.name, .ofOffset text name.start⟩ done)
  | elseBlock {c : Condition} {ss : List Statement} {start stop : Nat} :
    Enters done (.elseBranch c ss) ⟨.openBrace, start, stop⟩ (.elseBlock c ss done)

/-- Whether a token goes on with the statement under way. -/
def Pending.expects : Pending → Token → Bool
  | .nothing | .separator => fun _ => false
  | .call _ | .loop _ => fun t => t.isNumber || t == .openParen
  | .callParen .. => fun t => t.isNumber || t == .closeParen
  | .callNumber .. | .loopNumber .. | .sensorParen .. => (· == .closeParen)
  | .loopParen .. => Token.isNumber
  | .loopCount .. => (· == .openBrace)
  | .condition .. => fun t => t.isName || (t == .bang || t == .openParen)
  | .sensor _ 0 _ => fun t => t == .openParen || t == .openBrace
  | .sensor _ (_ + 1) _ => fun t => t == .openParen || t == .closeParen
  | .sensorDone _ 0 _ => (· == .openBrace)
  | .sensorDone _ (_ + 1) _ => (· == .closeParen)
  | .thenDone .. => (· == .elseWord)
  | .elseBranch .. => fun t => t == .openBrace || t == .ifWord

theorem continue?_eq_none_iff :
    r.continue? text l = none ↔ r.pending.expects l.token = false := by
  obtain ⟨frames, done, pending⟩ := r
  obtain ⟨token, start, stop⟩ := l
  cases pending with
  | sensor negated opened | sensorDone negated opened =>
    cases opened <;> cases token <;> simp [continue?, Pending.expects]
  | _ => cases token <;> simp [continue?, Pending.expects, Token.isNumber, Token.isName]

/-! ### The step of a reader -/

variable (text) in
/-- The reader that a token leads to. -/
inductive Advance (r : Reader) (l : Lexeme) : Reader → Prop
  | grow {p : Pending} (grows : r.pending.Grows l p) : Advance r l { r with pending := p }
  | call {name : Word} {argument : Option String} (calls : r.pending.Calls l name argument) :
    Advance r l (r.push (callOf text name argument l.stop))
  | enter {frame : Frame} (enters : r.pending.Enters text r.done l frame) :
    Advance r l { frames := frame :: r.frames }
  | elseIf {c : Condition} {ss : List Statement} (branch : r.pending = .elseBranch c ss)
      (word : l.token = .ifWord) :
    Advance r l { frames := .elseIf c ss r.done :: r.frames, pending := .condition false 0 }
  | opening {p : Pending} (settled : r.pending.settled = true) (first : opening? l = some p) :
    Advance r l { r.settle text l.start with pending := p }
  | semicolon (settled : r.pending.settled = true)
      (separator : (r.settle text l.start).pending = .separator) (mark : l.token = .semicolon) :
    Advance r l (r.settle text l.start)
  | closeBlock {r' : Reader} (settled : r.pending.settled = true) (mark : l.token = .closeBrace)
      (close : (r.settle text l.start).closeBlock? text = some r') : Advance r l r'

/-- Something new begins with the first token of a statement, a semicolon behind a statement or a
closing brace. -/
theorem begin?_eq_some_iff :
    r.begin? text l = some r' ↔
      (∃ p, opening? l = some p ∧ r' = { r with pending := p }) ∨
        (l.token = .semicolon ∧ r.pending = .separator ∧ r' = r) ∨
        l.token = .closeBrace ∧ r.closeBlock? text = some r' := by
  obtain ⟨frames, done, pending⟩ := r
  obtain ⟨token, start, stop⟩ := l
  cases token with
  | word | repeatWord | ifWord => cases pending <;> simp [begin?, opening?, eq_comm]
  | semicolon => cases pending <;> simp [begin?, opening?, eq_comm]
  | closeBrace => cases pending <;> simp [begin?, opening?]
  | _ => cases pending <;> simp [begin?, opening?]

/-- No token that begins something new goes on with a statement that lacks nothing. -/
theorem continue?_of_begin? (hsettled : r.pending.settled = true) {r₀ : Reader}
    (h : r₀.begin? text l = some r') : r.continue? text l = none := by
  obtain ⟨frames, done, pending⟩ := r
  obtain ⟨token, start, stop⟩ := l
  have hnew : opening? ⟨token, start, stop⟩ ≠ none ∨ token = .semicolon ∨ token = .closeBrace := by
    obtain ⟨p, hp, -⟩ | ⟨hmark, -⟩ | ⟨hmark, -⟩ := begin?_eq_some_iff.mp h
    · exact .inl (by simp [hp])
    · exact .inr (.inl hmark)
    · exact .inr (.inr hmark)
  cases pending with
  | nothing | separator => rfl
  -- only arguments and `else` go on here
  | call | thenDone => cases token <;> first | rfl | simp [opening?] at hnew
  | _ => cases hsettled

/-- A token goes on with the statement under way or, if that lacks nothing, begins something new. -/
theorem step?_eq_some_iff :
    r.step? text l = some r' ↔
      r.continue? text l = some r' ∨
        r.pending.settled = true ∧ (r.settle text l.start).begin? text l = some r' := by
  unfold step?
  constructor
  · intro h
    cases hcontinue : r.continue? text l with
    | some r'' =>
      rw [hcontinue] at h
      exact .inl h
    | none =>
      rw [hcontinue] at h
      exact .inr (Option.ite_none_right_eq_some.mp h)
  · rintro (hcontinue | ⟨hsettled, hbegin⟩)
    · rw [hcontinue]
    · rw [continue?_of_begin? hsettled hbegin, if_pos hsettled]
      exact hbegin

theorem advance_of_continue? (h : r.continue? text l = some r') : r.Advance text l r' := by
  obtain ⟨frames, done, pending⟩ := r
  obtain ⟨token, start, stop⟩ := l
  cases pending with
  | nothing | separator => cases token <;> cases h
  | call | callParen | callNumber =>
    cases token <;> cases h <;> first | exact .grow (by constructor) | exact .call (by constructor)
  | loopCount =>
    cases token <;> cases h
    exact .enter (by constructor)
  | elseBranch =>
    cases token <;> cases h <;> first | exact .enter (by constructor) | exact .elseIf rfl rfl
  -- a sensor goes on in different ways inside parentheses and outside
  | sensor negated opened | sensorDone negated opened =>
    cases opened <;> cases token <;> cases h <;>
      first | exact .grow (by constructor) | exact .enter (by constructor)
  | _ => cases token <;> cases h <;> exact .grow (by constructor)

/-- A reader takes a token just if the token advances it. -/
theorem advance_iff : r.step? text l = some r' ↔ r.Advance text l r' := by
  rw [step?_eq_some_iff]
  constructor
  · rintro (hcontinue | ⟨hsettled, hbegin⟩)
    · exact advance_of_continue? hcontinue
    -- the statement under way lacks nothing, and is complete before the token is looked at
    · obtain ⟨p, hp, rfl⟩ | ⟨hmark, hseparator, rfl⟩ | ⟨hmark, hclose⟩ :=
        begin?_eq_some_iff.mp hbegin
      · exact .opening hsettled hp
      · exact .semicolon hsettled hseparator hmark
      · exact .closeBlock hsettled hmark hclose
  · intro h
    obtain ⟨frames, done, pending⟩ := r
    cases h with
    | grow grows => cases grows <;> exact .inl rfl
    | call calls => cases calls <;> exact .inl rfl
    | enter enters => cases enters <;> exact .inl rfl
    | elseIf branch word =>
      obtain ⟨token, start, stop⟩ := l
      cases branch
      cases word
      exact .inl rfl
    | opening settled first =>
      exact .inr ⟨settled, begin?_eq_some_iff.mpr (.inl ⟨_, first, rfl⟩)⟩
    | semicolon settled separator mark =>
      exact .inr ⟨settled, begin?_eq_some_iff.mpr (.inr (.inl ⟨mark, separator, rfl⟩))⟩
    | closeBlock settled mark close =>
      exact .inr ⟨settled, begin?_eq_some_iff.mpr (.inr (.inr ⟨mark, close⟩))⟩

end Reader

end RobotPuzzle
