import RobotPuzzle.Proofs.Lexing
import RobotPuzzle.Proofs.Reading

/-!
# What reading keeps of a text

Reading a program builds a tree and forgets the tokens. But no name and no number gets lost on the
way, and none is made up: the tree holds those of the text in their order, and it has a loop for
each `repeat` and a branch for each `if`. While a reader is at work its state accounts for all that
it has read: some of it is in finished statements, some in the blocks that are still open, and the
rest in the statement under way.

## Main definitions

* `nodesOf` — the statements of a block at every depth, in the order of the text
* `Statement.operands` — the name and the number that a statement holds itself
* `Token.isKept` — tokens that leave something in the tree
* `Reader.kept` — what a reader holds of the tokens it has read
* `Reader.Tidy` — nothing stands beside a branch after `else`
* `Reader.Gains` — what a reader has read since another state

## Main results

* `Reader.Advance.gains` — reading a token adds it to what the reader holds
* `Reader.kept_of_readAll` — a tree holds all that was read for it
* `reading_loses_nothing` — names and numbers of a tree are those of its text, and its loops and
  branches are as many as there are words for them
-/

namespace RobotPuzzle

/-! ### Reading a tree in order -/

mutual

/-- A statement and those in its blocks, in the order of the text. -/
def Statement.nodes : Statement → List Statement
  | .call name argument text l => [.call name argument text l]
  | .loop count body l => .loop count body l :: nodesOf body
  | .branch condition thenBlock elseBlock =>
    .branch condition thenBlock elseBlock :: (nodesOf thenBlock ++ nodesOfElse elseBlock)

/-- The statements of the block after `else`, if there is one. -/
def nodesOfElse : Option (List Statement) → List Statement
  | none => []
  | some block => nodesOf block

/-- The statements of a block and those in their blocks, in the order of the text. -/
def nodesOf : List Statement → List Statement
  | [] => []
  | s :: ss => s.nodes ++ nodesOf ss

end

namespace Statement

/-- The names and numbers that a statement holds itself, as tokens: the name and the argument of a
call, the count of a loop, the sensor of a branch. -/
def operands : Statement → List Token
  | call name argument _ _ => .word name :: argument.toList.map .number
  | loop count _ _ => [.number count]
  | branch condition _ _ => [.word condition.sensor]

/-- The same behind the reserved word that the statement begins with. -/
def headTokens : Statement → List Token
  | call name argument text l => (call name argument text l).operands
  | loop count body l => .repeatWord :: (loop count body l).operands
  | branch condition thenBlock elseBlock =>
    .ifWord :: (branch condition thenBlock elseBlock).operands

/-- Whether a statement is a loop. -/
def isLoop : Statement → Bool
  | loop .. => true
  | _ => false

/-- Whether a statement is a branch. -/
def isBranch : Statement → Bool
  | branch .. => true
  | _ => false

end Statement

/-- Whether a token is a name or a number. -/
def Token.isOperand : Token → Bool
  | word _ | number _ => true
  | _ => false

/-- Whether a token leaves something in the tree. -/
def Token.isKept : Token → Bool
  | repeatWord | ifWord => true
  | t => t.isOperand

/-- The tokens that statements have been read from, without those that leave nothing. -/
def keptIn (ss : List Statement) : List Token := (nodesOf ss).flatMap Statement.headTokens

section KeptIn

variable (ss ts : List Statement)

theorem nodesOf_append : nodesOf (ss ++ ts) = nodesOf ss ++ nodesOf ts := by
  induction ss with
  | nil => rfl
  | cons s ss ih => simp only [List.cons_append, nodesOf, ih, List.append_assoc]

@[simp] theorem keptIn_nil : keptIn [] = [] := rfl

@[simp] theorem keptIn_append : keptIn (ss ++ ts) = keptIn ss ++ keptIn ts := by
  rw [keptIn, nodesOf_append, List.flatMap_append]
  rfl

@[simp] theorem keptIn_call (name : String) (argument : Option String) (text : String)
    (l : Location) :
    keptIn [.call name argument text l] = .word name :: argument.toList.map .number := by
  simp [keptIn, nodesOf, Statement.nodes, Statement.headTokens, Statement.operands]

@[simp] theorem keptIn_loop (count : String) (body : List Statement) (l : Location) :
    keptIn [.loop count body l] = .repeatWord :: .number count :: keptIn body := by
  simp [keptIn, nodesOf, Statement.nodes, Statement.headTokens, Statement.operands]

@[simp] theorem keptIn_branch_none (condition : Condition) (thenBlock : List Statement) :
    keptIn [.branch condition thenBlock none] =
      .ifWord :: .word condition.sensor :: keptIn thenBlock := by
  simp [keptIn, nodesOf, nodesOfElse, Statement.nodes, Statement.headTokens, Statement.operands]

@[simp] theorem keptIn_branch_some (condition : Condition) (thenBlock block : List Statement) :
    keptIn [.branch condition thenBlock (some block)] =
      .ifWord :: .word condition.sensor :: (keptIn thenBlock ++ keptIn block) := by
  simp [keptIn, nodesOf, nodesOfElse, Statement.nodes, Statement.headTokens, Statement.operands]

end KeptIn

/-! ### What a reader holds -/

namespace Reader

/-- What a statement under way holds of the tokens read for it. -/
def Pending.kept : Pending → List Token
  | .nothing | .separator => []
  | .call name | .callParen name _ => [.word name.name]
  | .callNumber name _ digits => [.word name.name, .number digits]
  | .loop _ | .loopParen _ _ => [.repeatWord]
  | .loopNumber _ _ count | .loopCount _ count => [.repeatWord, .number count]
  | .condition _ _ => [.ifWord]
  | .sensor _ _ name | .sensorParen _ _ name _ | .sensorDone _ _ name => [.ifWord, .word name.name]
  | .thenDone c ss | .elseBranch c ss => .ifWord :: .word c.sensor :: keptIn ss

/-- The statements that stand before the one whose block is open, the latest first. -/
def Frame.before : Frame → List Statement
  | .loop _ _ before | .thenBlock _ before | .elseBlock _ _ before | .elseIf _ _ before => before

/-- What an open block holds of the statement that it belongs to. -/
def Frame.head : Frame → List Token
  | .loop _ count _ => [.repeatWord, .number count]
  | .thenBlock c _ => [.ifWord, .word c.sensor]
  | .elseBlock c ss _ | .elseIf c ss _ => .ifWord :: .word c.sensor :: keptIn ss

/-- What an open block holds of the tokens read before it. -/
def Frame.kept (frame : Frame) : List Token := keptIn frame.before.reverse ++ frame.head

/-- What open blocks hold, the innermost of which comes first in the list. -/
def keptInFrames (frames : List Frame) : List Token := frames.reverse.flatMap Frame.kept

@[simp] theorem keptInFrames_nil : keptInFrames [] = [] := rfl

@[simp] theorem keptInFrames_cons (frame : Frame) (frames : List Frame) :
    keptInFrames (frame :: frames) = keptInFrames frames ++ frame.kept := by
  simp [keptInFrames]

/-- What a reader holds of the tokens it has read. -/
def kept (r : Reader) : List Token :=
  keptInFrames r.frames ++ keptIn r.done.reverse ++ r.pending.kept

/-- A branch after `else` makes up a block alone: no statements have been read beside it. -/
def TidyFrames : List Frame → List Statement → Prop
  | [], _ => True
  | frame :: frames, done =>
    (∀ condition thenBlock before, frame = .elseIf condition thenBlock before → done = []) ∧
      TidyFrames frames frame.before

/-- No statements stand beside a branch after `else`, so none are lost when it is complete. -/
def Tidy (r : Reader) : Prop := TidyFrames r.frames r.done

/-- One reader has come from another by reading some tokens that leave something in the tree. -/
def Gains (r : Reader) (ts : List Token) (r' : Reader) : Prop :=
  r.Tidy → r'.Tidy ∧ r'.kept = r.kept ++ ts

theorem Gains.trans {r r' r'' : Reader} {ts us : List Token} (h : r.Gains ts r')
    (h' : r'.Gains us r'') : r.Gains (ts ++ us) r'' := by
  intro htidy
  obtain ⟨htidy', hkept⟩ := h htidy
  obtain ⟨htidy'', hkept'⟩ := h' htidy'
  exact ⟨htidy'', by rw [hkept', hkept, List.append_assoc]⟩

/-! ### Steps of a reader -/

section Steps

variable (text : List Char) {r r' : Reader} {ts : List Token} {l : Lexeme}

/-- A complete statement is added to what open blocks hold. -/
theorem kept_complete {frames : List Frame} {done : List Statement}
    (h : TidyFrames frames done) (s : Statement) :
    (complete s frames done).Tidy ∧
      (complete s frames done).kept =
        keptInFrames frames ++ keptIn done.reverse ++ keptIn [s] := by
  -- on the open blocks, as a branch after `else` completes the one around it
  induction frames generalizing s done with
  | nil => exact ⟨trivial, by simp [complete, kept, Pending.kept]⟩
  | cons frame frames ih =>
    obtain ⟨halone, hframes⟩ := h
    cases frame with
    | elseIf condition thenBlock before =>
      -- nothing stands beside the statement, so the branch around it takes in all there is
      obtain rfl := halone _ _ _ rfl
      obtain ⟨htidy, hkept⟩ := ih hframes (.branch condition thenBlock (some [s]))
      refine ⟨htidy, hkept.trans ?_⟩
      simp [Frame.kept, Frame.before, Frame.head]
    | loop | thenBlock | elseBlock =>
      exact ⟨⟨nofun, hframes⟩, by simp [complete, kept, Pending.kept]⟩

/-- A complete statement leaves none under way. -/
theorem pending_complete (s : Statement) (frames : List Frame) (done : List Statement) :
    (complete s frames done).pending = .separator := by
  induction frames generalizing s done with
  | nil => rfl
  | cons frame frames ih =>
    cases frame with
    | elseIf condition thenBlock before => exact ih _ _
    | loop | thenBlock | elseBlock => rfl

theorem gains_push {s : Statement} (hs : keptIn [s] = r.pending.kept ++ ts) :
    r.Gains ts (r.push s) := by
  intro htidy
  obtain ⟨htidy', hkept⟩ := kept_complete htidy s
  refine ⟨htidy', hkept.trans ?_⟩
  rw [hs, kept, List.append_assoc, List.append_assoc, List.append_assoc]

theorem gains_pending {p : Pending} (hp : p.kept = r.pending.kept ++ ts) :
    r.Gains ts { r with pending := p } := by
  intro htidy
  refine ⟨htidy, ?_⟩
  simp only [kept, hp, List.append_assoc]

theorem gains_enter {frame : Frame} {p : Pending} (hbefore : frame.before = r.done)
    (hhead : frame.head ++ p.kept = r.pending.kept ++ ts) :
    r.Gains ts { frames := frame :: r.frames, pending := p } := by
  intro htidy
  refine ⟨⟨fun _ _ _ _ => rfl, by rwa [hbefore]⟩, ?_⟩
  simp only [kept, keptInFrames_cons, Frame.kept, hbefore, List.reverse_nil, keptIn_nil,
    List.append_nil, List.append_assoc, hhead]

/-- Completing the statement under way keeps all of it. -/
theorem gains_settle (next : Nat) : r.Gains [] (r.settle text next) := by
  obtain ⟨frames, done, pending⟩ := r
  cases pending with
  | call | thenDone => exact gains_push (by simp [callOf, Pending.kept])
  | _ => exact fun htidy => ⟨htidy, (List.append_nil _).symm⟩

/-- After that the reader is between two statements. -/
theorem pending_settle (h : r.pending.settled = true) (next : Nat) :
    (r.settle text next).pending = .nothing ∨ (r.settle text next).pending = .separator := by
  obtain ⟨frames, done, pending⟩ := r
  cases pending with
  | nothing => exact .inl rfl
  | separator => exact .inr rfl
  | call | thenDone => exact .inr (pending_complete _ _ _)
  | _ => cases h

theorem kept_pending_settle (h : r.pending.settled = true) (next : Nat) :
    (r.settle text next).pending.kept = [] := by
  rcases pending_settle text h next with hpending | hpending <;> rw [hpending] <;> rfl

variable {text}

/-- Ending a block keeps what has been read in it. -/
theorem gains_closeBlock? (hpending : r.pending.kept = []) (hclose : r.closeBlock? text = some r') :
    r.Gains [] r' := by
  intro htidy
  obtain ⟨frames, done, pending⟩ := r
  cases frames with
  | nil => cases hclose
  | cons frame frames =>
    have houter : TidyFrames frames frame.before := htidy.2
    cases frame with
    | loop start count before =>
      obtain rfl := Option.some.inj hclose
      obtain ⟨htidy', hkept⟩ :=
        kept_complete houter (.loop count done.reverse (.ofOffset text start))
      exact ⟨htidy', hkept.trans (by simp_all [kept, Frame.kept, Frame.before, Frame.head])⟩
    | thenBlock condition before =>
      obtain rfl := Option.some.inj hclose
      exact ⟨houter, by simp_all [kept, Frame.kept, Frame.before, Frame.head, Pending.kept]⟩
    | elseBlock condition thenBlock before =>
      obtain rfl := Option.some.inj hclose
      obtain ⟨htidy', hkept⟩ :=
        kept_complete houter (.branch condition thenBlock (some done.reverse))
      exact ⟨htidy', hkept.trans (by simp_all [kept, Frame.kept, Frame.before, Frame.head])⟩
    | elseIf => cases hclose

theorem Pending.Grows.kept {p p' : Pending} (h : p.Grows l p') :
    p'.kept = p.kept ++ [l.token].filter Token.isKept := by
  cases h <;> first | rfl | exact (List.append_nil _).symm

theorem Pending.Calls.kept {p : Pending} {name : Word} {argument : Option String}
    (h : p.Calls l name argument) :
    .word name.name :: argument.toList.map .number = p.kept ++ [l.token].filter Token.isKept := by
  cases h <;> rfl

theorem Pending.Enters.before {p : Pending} {done : List Statement} {frame : Frame}
    (h : p.Enters text done l frame) : frame.before = done := by
  cases h <;> rfl

theorem Pending.Enters.kept {p : Pending} {done : List Statement} {frame : Frame}
    (h : p.Enters text done l frame) :
    frame.head = p.kept ++ [l.token].filter Token.isKept := by
  cases h <;> first | rfl | exact (List.append_nil _).symm

theorem kept_of_opening? {p : Pending} (h : opening? l = some p) :
    p.kept = [l.token].filter Token.isKept := by
  obtain ⟨token, start, stop⟩ := l
  cases token <;> cases h <;> rfl

/-- Reading a token adds it to what the reader holds. -/
theorem Advance.gains (h : r.Advance text l r') :
    r.Gains ([l.token].filter Token.isKept) r' := by
  cases h with
  | grow grows => exact gains_pending grows.kept
  | call calls => exact gains_push ((keptIn_call ..).trans calls.kept)
  | enter enters => exact gains_enter enters.before ((List.append_nil _).trans enters.kept)
  | elseIf branch word =>
    rw [word]
    exact gains_enter rfl (by rw [branch]; rfl)
  | @opening p settled first =>
    have hbegin : (r.settle text l.start).Gains ([l.token].filter Token.isKept)
        { r.settle text l.start with pending := p } := by
      refine gains_pending ?_
      rw [kept_pending_settle text settled, kept_of_opening? first, List.nil_append]
    exact (gains_settle text l.start).trans hbegin
  | semicolon settled separator mark =>
    rw [mark]
    exact gains_settle text l.start
  -- the last statement of a block is completed before the block is closed
  | closeBlock settled mark close =>
    rw [mark]
    exact (gains_settle text l.start).trans
      (gains_closeBlock? (kept_pending_settle text settled l.start) close)

/-- A whole program holds what its reader holds. -/
theorem keptIn_of_close? {stop : Nat} {ss : List Statement} (htidy : r.Tidy)
    (hclose : r.close? text stop = some ss) : keptIn ss = r.kept := by
  obtain ⟨hsettled, hframes, rfl⟩ := close?_eq_some_iff.mp hclose
  obtain ⟨-, hkept⟩ := gains_settle text stop htidy
  rw [List.append_nil] at hkept
  rw [← hkept, kept, hframes, kept_pending_settle text hsettled stop, keptInFrames_nil,
    List.nil_append, List.append_nil]

theorem Reads.gains {ls : List Lexeme} (h : Reads text r ls r') :
    r.Gains ((ls.map Lexeme.token).filter Token.isKept) r' := by
  induction h with
  | nil => exact fun htidy => ⟨htidy, (List.append_nil _).symm⟩
  | cons hstep _ ih =>
    have hall := (advance_iff.mp hstep).gains.trans ih
    rwa [← List.filter_append] at hall

/-- A tree holds what was held before and all that has been read for it since. -/
theorem kept_of_readAll {stop : Nat} {complete : Bool} {ls : List Lexeme} {ss : List Statement}
    (htidy : r.Tidy) (h : readAll text stop complete r ls = .ok ss) :
    complete = true ∧ keptIn ss = r.kept ++ (ls.map Lexeme.token).filter Token.isKept := by
  obtain ⟨hcomplete, r', hreads, hclose⟩ := readAll_eq_ok_iff.mp h
  obtain ⟨htidy', hkept⟩ := hreads.gains htidy
  exact ⟨hcomplete, (keptIn_of_close? htidy' hclose).trans hkept⟩

end Steps

end Reader

/-! ### What is read of a text -/

section Tokens

variable {ss : List Statement} {ts : List Token}

theorem operands_eq_filter (s : Statement) :
    s.operands = s.headTokens.filter Token.isOperand := by
  cases s with
  | call name argument text l => cases argument <;> rfl
  | loop | branch => rfl

/-- Names and numbers come out of a tree as they come out of the tokens it was read from. -/
theorem operands_of_keptIn (h : keptIn ss = ts.filter Token.isKept) :
    (nodesOf ss).flatMap Statement.operands = ts.filter Token.isOperand := by
  have hkept : ∀ t : Token, (t.isOperand && t.isKept) = t.isOperand := by
    intro t
    cases t <;> rfl
  calc (nodesOf ss).flatMap Statement.operands
      = (nodesOf ss).flatMap fun s => s.headTokens.filter Token.isOperand :=
        congrArg (nodesOf ss).flatMap (funext operands_eq_filter)
    _ = (keptIn ss).filter Token.isOperand := List.filter_flatMap.symm
    _ = ts.filter Token.isOperand := by rw [h, List.filter_filter, funext hkept]

/-- Statements of a kind are as many as the tokens that only they begin with. -/
theorem countP_of_keptIn {t : Token} {p : Statement → Bool}
    (h : keptIn ss = ts.filter Token.isKept) (ht : t.isKept = true)
    (hp : ∀ s : Statement, s.headTokens.count t = if p s then 1 else 0) :
    (nodesOf ss).countP p = ts.count t := by
  -- each statement of the kind brings the token once, and no other statement brings it
  have hcount : ∀ nodes : List Statement,
      (nodes.flatMap Statement.headTokens).count t = nodes.countP p := by
    intro nodes
    induction nodes with
    | nil => rfl
    | cons s nodes ih =>
      rw [List.flatMap_cons, List.count_append, ih, hp, List.countP_cons, Nat.add_comm]
  calc (nodesOf ss).countP p
      = (keptIn ss).count t := (hcount _).symm
    _ = ts.count t := by rw [h, List.count_filter ht]

end Tokens

theorem parseStatements_eq_ok_iff {source : String} {ss : List Statement} :
    parseStatements source = .ok ss ↔ readStatements source.toList = .ok ss := by
  unfold parseStatements
  cases readStatements source.toList with
  | ok ts => simp
  | error p => simp

/-- A text that is read is made of tokens, and its tree holds all of them that leave something. -/
theorem exists_tokenized_of_parse {source : String} {ss : List Statement}
    (h : parseStatements source = .ok ss) :
    ∃ ts, Tokenized ts source.toList ∧ keptIn ss = ts.filter Token.isKept := by
  obtain ⟨hcomplete, hkept⟩ :=
    Reader.kept_of_readAll (r := {}) trivial (parseStatements_eq_ok_iff.mp h)
  exact ⟨_, tokenized_iff.mpr ⟨rfl, hcomplete⟩, hkept⟩

/-- An accepted text is made of tokens in one way, taken from left to right as long as possible. Its
tree, read in order, gives the names and numbers among them in their order, and it has as many loops
and branches at all depths as there are words `repeat` and `if` among them. -/
theorem reading_loses_nothing {source : String} {ss : List Statement}
    (h : parseStatements source = .ok ss) :
    ∃ ts, Tokenized ts source.toList ∧ (∀ us, Tokenized us source.toList → us = ts) ∧
      (nodesOf ss).flatMap Statement.operands = ts.filter Token.isOperand ∧
      (nodesOf ss).countP Statement.isLoop = ts.count .repeatWord ∧
      (nodesOf ss).countP Statement.isBranch = ts.count .ifWord := by
  obtain ⟨ts, htokens, hkept⟩ := exists_tokenized_of_parse h
  refine ⟨ts, htokens, fun us => htokens.unique, operands_of_keptIn hkept,
    countP_of_keptIn hkept rfl fun s => ?_, countP_of_keptIn hkept rfl fun s => ?_⟩
  · cases s with
    | call name argument text l => cases argument <;> rfl
    | loop | branch => rfl
  · cases s with
    | call name argument text l => cases argument <;> rfl
    | loop | branch => rfl

/-- A branch after `else`, a sensor in parentheses, a call without number and a comment at the
end. -/
theorem reading_loses_nothing_after_else :
    let source := "if !(onFire()) { left() } else if sensor { repeat(2) {forward -1;} } # if"
    let ss : List Statement :=
      [.branch ⟨true, "onFire", ⟨1, 6⟩⟩ [.call "left" none "left()" ⟨1, 18⟩]
        (some [.branch ⟨false, "sensor", ⟨1, 35⟩⟩
          [.loop "2" [.call "forward" (some "-1") "forward -1" ⟨1, 55⟩] ⟨1, 44⟩] none])]
    parseStatements source = .ok ss ∧
      ∃ ts, Tokenized ts source.toList ∧
        ts.filter Token.isOperand =
          [.word "onFire", .word "left", .word "sensor", .number "2", .word "forward",
            .number "-1"] ∧
        ts.count .repeatWord = 1 ∧ ts.count .ifWord = 2 := by
  intro source ss
  have hparse : parseStatements source = .ok ss := by decide +kernel
  obtain ⟨ts, htokens, -, hoperands, hloops, hbranches⟩ := reading_loses_nothing hparse
  exact ⟨hparse, ts, htokens, hoperands.symm, hloops.symm, hbranches.symm⟩

end RobotPuzzle
