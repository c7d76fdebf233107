import RobotPuzzle.Proofs.Advancing
import RobotPuzzle.Proofs.Metering
import RobotPuzzle.Proofs.Spacing
import RobotPuzzle.Proofs.Writing

/-!
# Reading what was written

A reader that is given the tokens of some commands reads a statement for each of them. Between
two statements it rests with the blocks around them open and the statements read so far put
aside; only a call without a number is still under way, because a number might follow.

## Main definitions

* `Statement.Says`, `SayAll` — statements that say commands, wherever in a text they stand
* `Reader.Reads` — what a reader comes to by reading some tokens
* `Reader.Rests` — a reader between two statements of a block

## Main results

* `action?_verb` — a call written for an action denotes it
* `Reader.Rests.reads_commands` — reading the tokens of commands adds what says them
* `parseStatements_of_layout` — any layout of the tokens of commands is read as what says them
-/

namespace RobotPuzzle

/-! ### Statements that say commands -/

mutual

/-- The statement says the command: names, numbers and blocks mean what the command holds. Where
the statement stands in a text does not matter. -/
inductive Statement.Says : Statement → Command → Prop
  | call {name text : String} {argument : Option String} {l : Location} {a : Action} :
    action? name argument = some a → Statement.Says (.call name argument text l) (.act a)
  | loop {digits : String} {ss : List Statement} {l : Location} {count : Nat}
      {body : List Command} :
    countOf digits = count → SayAll ss body →
      Statement.Says (.loop digits ss l) (.loop count body)
  | branch {condition : Condition} {ss es : List Statement} {negated : Bool}
      {thenDo elseDo : List Command} :
    isFireSensor condition.sensor = true → condition.negated = negated → SayAll ss thenDo →
      SayAll es elseDo →
      Statement.Says (.branch condition ss (some es)) (.branch negated thenDo elseDo)

/-- The statements say the commands one by one. -/
inductive SayAll : List Statement → List Command → Prop
  | nil : SayAll [] []
  | cons {s : Statement} {ss : List Statement} {c : Command} {cs : List Command} :
    s.Says c → SayAll ss cs → SayAll (s :: ss) (c :: cs)

end

theorem sayAll_append {ss ts : List Statement} {cs ds : List Command} :
    SayAll ss cs → SayAll ts ds → SayAll (ss ++ ts) (cs ++ ds)
  | .nil, h' => h'
  | .cons hs h, h' => .cons hs (sayAll_append h h')

/-- A statement read after others. -/
theorem sayAll_reverse_cons {done : List Statement} {s : Statement} {cs : List Command}
    {c : Command} (h : SayAll done.reverse cs) (hs : s.Says c) :
    SayAll (s :: done).reverse (cs ++ [c]) := by
  rw [List.reverse_cons]
  exact sayAll_append h (.cons hs .nil)

theorem countOf_toString (n : Nat) : countOf (toString n) = n := by
  rw [countOf, denoted_toString, Int.toNat_natCast]

/-- A call written for an action denotes it. -/
theorem action?_verb (a : Action) : action? a.verb a.number? = some a := by
  cases a with
  | move heading cells =>
    have hcells : countOf (toString cells) = cells := countOf_toString cells
    cases heading with
    | forward =>
      change some (Action.move .forward (countOf (toString cells))) = _
      rw [hcells]
    | backward =>
      change some (Action.move .backward (countOf (toString cells))) = _
      rw [hcells]
  | _ => rfl

namespace Reader

variable {text : List Char}

/-! ### Reading tokens one after the other -/

/-- A reader that reads some tokens and comes to another one. -/
inductive Reads (text : List Char) : Reader → List Lexeme → Reader → Prop
  | nil {r : Reader} : Reads text r [] r
  | cons {r r' r'' : Reader} {l : Lexeme} {ls : List Lexeme} :
    r.step? text l = some r' → Reads text r' ls r'' → Reads text r (l :: ls) r''

theorem Reads.append {r r' r'' : Reader} {ls ls' : List Lexeme} (h : Reads text r ls r')
    (h' : Reads text r' ls' r'') : Reads text r (ls ++ ls') r'' := by
  induction h with
  | nil => exact h'
  | cons hstep _ ih => exact .cons hstep (ih h')

theorem readAll_of_reads {r r' : Reader} {ls : List Lexeme} (h : Reads text r ls r')
    (stop : Nat) (complete : Bool) :
    readAll text stop complete r ls = readAll text stop complete r' [] := by
  induction h with
  | nil => rfl
  | cons hstep _ ih =>
    simp only [readAll, hstep]
    exact ih

/-- A text is read as some statements if a reader comes through its tokens and may stop there. -/
theorem readAll_eq_ok_iff {r : Reader} {ls : List Lexeme} {stop : Nat} {complete : Bool}
    {ss : List Statement} :
    readAll text stop complete r ls = .ok ss ↔
      complete = true ∧ ∃ r', Reads text r ls r' ∧ r'.close? text stop = some ss := by
  constructor
  · intro h
    induction ls generalizing r with
    | nil =>
      unfold readAll at h
      split at h
      · next ss' hclose =>
        obtain rfl := Except.ok.inj h
        obtain ⟨hcomplete, hclose⟩ := Option.ite_none_right_eq_some.mp hclose
        exact ⟨hcomplete, r, .nil, hclose⟩
      · cases h
    | cons l ls ih =>
      unfold readAll at h
      split at h
      · next r' hstep =>
        obtain ⟨hcomplete, r'', hreads, hclose⟩ := ih h
        exact ⟨hcomplete, r'', .cons hstep hreads, hclose⟩
      · cases h
  · rintro ⟨rfl, r', hreads, hclose⟩
    rw [readAll_of_reads hreads, readAll, if_pos rfl, hclose]

theorem exists_lexeme {ls : List Lexeme} {t : Token} {ts : List Token}
    (h : ls.map Lexeme.token = t :: ts) :
    ∃ start stop ls', ls = ⟨t, start, stop⟩ :: ls' ∧ ls'.map Lexeme.token = ts := by
  obtain ⟨⟨token, start, stop⟩, ls', rfl, rfl, hls'⟩ := List.map_eq_cons_iff.mp h
  exact ⟨start, stop, ls', rfl, hls'⟩

/-! ### Between two statements -/

/-- The innermost open block, if there is one, is in braces of its own. -/
def Braced : List Frame → Prop
  | .elseIf .. :: _ => False
  | _ => True

/-- A reader with the given blocks open that stands between two statements of the innermost one,
after statements that say some commands. A call without a number is still under way. -/
inductive Rests (frames : List Frame) : List Command → Reader → Prop
  | between {done : List Statement} {cs : List Command} {pending : Pending} :
    pending = .nothing ∨ pending = .separator → SayAll done.reverse cs →
      Rests frames cs { frames, done, pending }
  | call {done : List Statement} {cs : List Command} {name : Word} {a : Action} :
    action? name.name none = some a → SayAll done.reverse cs →
      Rests frames (cs ++ [.act a]) { frames, done, pending := .call name }

section Between

variable {frames : List Frame} {cs : List Command} {r : Reader}

theorem complete_of_braced (hframes : Braced frames) (s : Statement) (done : List Statement) :
    complete s frames done = { frames, done := s :: done, pending := .separator } := by
  cases frames with
  | nil => rfl
  | cons frame frames =>
    cases frame with
    | elseIf condition thenBlock before => exact hframes.elim
    | _ => rfl

/-- A complete statement adds the command that it says. -/
theorem rests_complete {done : List Statement} {s : Statement} {c : Command}
    (hframes : Braced frames) (h : SayAll done.reverse cs) (hs : s.Says c) :
    Rests frames (cs ++ [c]) (complete s frames done) := by
  rw [complete_of_braced hframes]
  exact .between (.inr rfl) (sayAll_reverse_cons h hs)

namespace Rests

/-- A reader that rests completes its call, if there is one under way. -/
theorem settle (h : Rests frames cs r) (hframes : Braced frames) (text : List Char)
    (next : Nat) :
    ∃ done pending, r.settle text next = { frames, done, pending } ∧ SayAll done.reverse cs := by
  cases h with
  | @between done cs pending hpending hsay =>
    refine ⟨done, pending, ?_, hsay⟩
    rcases hpending with rfl | rfl <;> rfl
  | @call done cs name a ha hsay =>
    have hcall : (callOf text name none next).Says (.act a) := .call ha
    exact ⟨_, _, complete_of_braced hframes _ _, sayAll_reverse_cons hsay hcall⟩

theorem settled (h : Rests frames cs r) : r.pending.settled = true := by
  cases h with
  | between hpending _ => rcases hpending with rfl | rfl <;> rfl
  | call _ _ => rfl

/-- A reader that rests begins a statement with the first token of one. -/
theorem step_opening (h : Rests frames cs r) (hframes : Braced frames) (text : List Char)
    {l : Lexeme} {p : Pending} (hl : opening? l = some p) :
    ∃ done, SayAll done.reverse cs ∧ r.step? text l = some { frames, done, pending := p } := by
  obtain ⟨done, pending, hsettle, hsay⟩ := h.settle hframes text l.start
  have hstep : r.step? text l = some { r.settle text l.start with pending := p } :=
    advance_iff.mpr (.opening h.settled hl)
  rw [hsettle] at hstep
  exact ⟨done, hsay, hstep⟩

theorem step_closeBrace (h : Rests frames cs r) (hframes : Braced frames) (text : List Char)
    (start stop : Nat) :
    ∃ done pending, SayAll done.reverse cs ∧
      ∀ r', ({ frames, done, pending } : Reader).closeBlock? text = some r' →
        r.step? text ⟨.closeBrace, start, stop⟩ = some r' := by
  obtain ⟨done, pending, hsettle, hsay⟩ := h.settle hframes text start
  exact ⟨done, pending, hsay, fun r' hclose =>
    advance_iff.mpr (.closeBlock h.settled rfl (hsettle ▸ hclose))⟩

end Rests

/-! ### Reading the tokens of commands -/

/-- A block that was opened with nothing read in it. -/
theorem rests_nil (frames : List Frame) :
    Rests frames [] { frames, done := [], pending := .nothing } :=
  .between (.inl rfl) .nil

theorem Rests.reads_action (h : Rests frames cs r) (hframes : Braced frames) (a : Action)
    {ls : List Lexeme} (hls : ls.map Lexeme.token = a.tokens) :
    ∃ r', Reads text r ls r' ∧ Rests frames (cs ++ [.act a]) r' := by
  have haction := action?_verb a
  unfold Action.tokens at hls
  cases hnumber : a.number? with
  | none =>
    rw [hnumber] at haction hls
    obtain ⟨start, stop, ls', rfl, hls'⟩ := exists_lexeme hls
    obtain rfl := List.map_eq_nil_iff.mp hls'
    obtain ⟨done, hsay, hstep⟩ :=
      h.step_opening hframes text (l := ⟨.word a.verb, start, stop⟩) rfl
    exact ⟨_, .cons hstep .nil, .call haction hsay⟩
  | some digits =>
    rw [hnumber] at haction hls
    obtain ⟨start, stop, ls', rfl, hls'⟩ := exists_lexeme hls
    obtain ⟨start', stop', ls'', rfl, hls''⟩ := exists_lexeme hls'
    obtain rfl := List.map_eq_nil_iff.mp hls''
    obtain ⟨done, hsay, hstep⟩ :=
      h.step_opening hframes text (l := ⟨.word a.verb, start, stop⟩) rfl
    -- a call with its number is complete, while one without is still under way
    have hcall : (callOf text ⟨a.verb, start, stop⟩ (some digits) stop').Says (.act a) :=
      .call haction
    exact ⟨_, .cons hstep (.cons rfl .nil), rests_complete hframes hsay hcall⟩

/-- The words up to the block of a loop. -/
theorem Rests.reads_loop (h : Rests frames cs r) (hframes : Braced frames) (count : String)
    {ls : List Lexeme} (hls : ls.map Lexeme.token = [.repeatWord, .number count, .openBrace]) :
    ∃ start before, SayAll before.reverse cs ∧
      Reads text r ls
        { frames := .loop start count before :: frames, done := [], pending := .nothing } := by
  obtain ⟨start, stop, ls₁, rfl, hls₁⟩ := exists_lexeme hls
  obtain ⟨_, _, ls₂, rfl, hls₂⟩ := exists_lexeme hls₁
  obtain ⟨_, _, ls₃, rfl, hls₃⟩ := exists_lexeme hls₂
  obtain rfl := List.map_eq_nil_iff.mp hls₃
  obtain ⟨done, hsay, hstep⟩ := h.step_opening hframes text (l := ⟨.repeatWord, start, stop⟩) rfl
  exact ⟨start, done, hsay, .cons hstep (.cons rfl (.cons rfl .nil))⟩

/-- The words up to the first block of a branch. -/
theorem Rests.reads_condition (h : Rests frames cs r) (hframes : Braced frames) (negated : Bool)
    (sensor : String) {ls : List Lexeme}
    (hls : ls.map Lexeme.token =
      .ifWord :: ((if negated then [.bang] else []) ++ [.word sensor, .openBrace])) :
    ∃ l before, SayAll before.reverse cs ∧
      Reads text r ls
        { frames := .thenBlock ⟨negated, sensor, l⟩ before :: frames, done := [],
          pending := .nothing } := by
  obtain ⟨start, stop, ls₁, rfl, hls₁⟩ := exists_lexeme hls
  obtain ⟨done, hsay, hstep⟩ := h.step_opening hframes text (l := ⟨.ifWord, start, stop⟩) rfl
  cases negated with
  | false =>
    obtain ⟨_, _, ls₂, rfl, hls₂⟩ := exists_lexeme hls₁
    obtain ⟨_, _, ls₃, rfl, hls₃⟩ := exists_lexeme hls₂
    obtain rfl := List.map_eq_nil_iff.mp hls₃
    exact ⟨_, done, hsay, .cons hstep (.cons rfl (.cons rfl .nil))⟩
  | true =>
    obtain ⟨_, _, ls₂, rfl, hls₂⟩ := exists_lexeme hls₁
    obtain ⟨_, _, ls₃, rfl, hls₃⟩ := exists_lexeme hls₂
    obtain ⟨_, _, ls₄, rfl, hls₄⟩ := exists_lexeme hls₃
    obtain rfl := List.map_eq_nil_iff.mp hls₄
    exact ⟨_, done, hsay, .cons hstep (.cons rfl (.cons rfl (.cons rfl .nil)))⟩

/-- The end of the first block of a branch and the words up to its second block. -/
theorem Rests.reads_else {condition : Condition} {before : List Statement}
    (h : Rests (.thenBlock condition before :: frames) cs r) {ls : List Lexeme}
    (hls : ls.map Lexeme.token = [.closeBrace, .elseWord, .openBrace]) :
    ∃ ss, SayAll ss cs ∧
      Reads text r ls
        { frames := .elseBlock condition ss before :: frames, done := [],
          pending := .nothing } := by
  obtain ⟨start, stop, ls₁, rfl, hls₁⟩ := exists_lexeme hls
  obtain ⟨_, _, ls₂, rfl, hls₂⟩ := exists_lexeme hls₁
  obtain ⟨_, _, ls₃, rfl, hls₃⟩ := exists_lexeme hls₂
  obtain rfl := List.map_eq_nil_iff.mp hls₃
  obtain ⟨done, pending, hsay, hstep⟩ := h.step_closeBrace trivial text start stop
  exact ⟨done.reverse, hsay, .cons (hstep _ rfl) (.cons rfl (.cons rfl .nil))⟩

/-- The end of a block. What it makes of the block depends on what the block belongs to. -/
theorem Rests.reads_closeBrace {frame : Frame} (h : Rests (frame :: frames) cs r)
    (hframe : Braced (frame :: frames)) {ls : List Lexeme}
    (hls : ls.map Lexeme.token = [.closeBrace]) :
    ∃ done pending, SayAll done.reverse cs ∧
      ∀ r', ({ frames := frame :: frames, done, pending } : Reader).closeBlock? text = some r' →
        Reads text r ls r' := by
  obtain ⟨start, stop, ls₁, rfl, hls₁⟩ := exists_lexeme hls
  obtain rfl := List.map_eq_nil_iff.mp hls₁
  obtain ⟨done, pending, hsay, hstep⟩ := h.step_closeBrace hframe text start stop
  exact ⟨done, pending, hsay, fun r' hclose => .cons (hstep r' hclose) .nil⟩

end Between

mutual

theorem Rests.reads_command {frames : List Frame} {cs : List Command} {r : Reader}
    (h : Rests frames cs r) (hframes : Braced frames) (c : Command) {ls : List Lexeme}
    (hls : ls.map Lexeme.token = c.tokens) :
    ∃ r', Reads text r ls r' ∧ Rests frames (cs ++ [c]) r' := by
  cases c with
  | act a => exact h.reads_action hframes a hls
  | loop count body =>
    have hsplit : ls.map Lexeme.token =
        [.repeatWord, .number (toString count), .openBrace] ++ (tokensOf body ++ [.closeBrace]) :=
      hls
    -- the tokens up to the body, those of the body, and the brace that closes it
    obtain ⟨head, rest, rfl, hhead, hrest⟩ := List.map_eq_append_iff.mp hsplit
    obtain ⟨middle, last, rfl, hbody, hclose⟩ := List.map_eq_append_iff.mp hrest
    obtain ⟨start, before, hsay, hreads⟩ := h.reads_loop hframes (toString count) hhead
    obtain ⟨r₁, hreadsBody, hrests⟩ :=
      (rests_nil (.loop start (toString count) before :: frames)).reads_commands trivial body hbody
    obtain ⟨done, pending, hsayBody, hend⟩ := hrests.reads_closeBrace trivial hclose
    have hloop : (Statement.loop (toString count) done.reverse
        (Location.ofOffset text start)).Says (.loop count body) :=
      .loop (countOf_toString count) hsayBody
    exact ⟨_, hreads.append (hreadsBody.append (hend _ rfl)), rests_complete hframes hsay hloop⟩
  | branch negated thenDo elseDo =>
    have hsplit : ls.map Lexeme.token =
        (.ifWord :: ((if negated then [.bang] else []) ++ [.word "onFire", .openBrace])) ++
          (tokensOf thenDo ++ ([.closeBrace, .elseWord, .openBrace] ++
            (tokensOf elseDo ++ [.closeBrace]))) := by
      rw [hls]
      cases negated <;> rfl
    -- five runs of tokens: up to the first block, it, up to the second block, it, and its brace
    obtain ⟨head, rest, rfl, hhead, hrest⟩ := List.map_eq_append_iff.mp hsplit
    obtain ⟨first, rest', rfl, hthen, hrest'⟩ := List.map_eq_append_iff.mp hrest
    obtain ⟨middle, rest'', rfl, hmiddle, hrest''⟩ := List.map_eq_append_iff.mp hrest'
    obtain ⟨second, last, rfl, helse, hclose⟩ := List.map_eq_append_iff.mp hrest''
    obtain ⟨l, before, hsay, hreads⟩ := h.reads_condition hframes negated "onFire" hhead
    obtain ⟨r₁, hreadsThen, hrestsThen⟩ :=
      (rests_nil (.thenBlock ⟨negated, "onFire", l⟩ before :: frames)).reads_commands trivial
        thenDo hthen
    obtain ⟨thenBlock, hsayThen, hreadsMiddle⟩ := hrestsThen.reads_else hmiddle
    obtain ⟨r₂, hreadsElse, hrestsElse⟩ :=
      (rests_nil (.elseBlock ⟨negated, "onFire", l⟩ thenBlock before :: frames)).reads_commands
        trivial elseDo helse
    obtain ⟨done, pending, hsayElse, hend⟩ := hrestsElse.reads_closeBrace trivial hclose
    have hbranch : (Statement.branch ⟨negated, "onFire", l⟩ thenBlock (some done.reverse)).Says
        (.branch negated thenDo elseDo) :=
      .branch rfl rfl hsayThen hsayElse
    exact ⟨_, hreads.append (hreadsThen.append (hreadsMiddle.append
      (hreadsElse.append (hend _ rfl)))), rests_complete hframes hsay hbranch⟩

/-- Reading the tokens of commands adds statements that say them. -/
theorem Rests.reads_commands {frames : List Frame} {cs : List Command} {r : Reader}
    (h : Rests frames cs r) (hframes : Braced frames) (ds : List Command) {ls : List Lexeme}
    (hls : ls.map Lexeme.token = tokensOf ds) :
    ∃ r', Reads text r ls r' ∧ Rests frames (cs ++ ds) r' := by
  cases ds with
  | nil =>
    obtain rfl := List.map_eq_nil_iff.mp hls
    exact ⟨r, .nil, by rwa [List.append_nil]⟩
  | cons d ds =>
    obtain ⟨ls₁, ls₂, rfl, hfirst, hrest⟩ := List.map_eq_append_iff.mp hls
    obtain ⟨r₁, hreads, hrests⟩ := h.reads_command hframes d hfirst
    obtain ⟨r₂, hreads', hrests'⟩ := hrests.reads_commands hframes ds hrest
    refine ⟨r₂, hreads.append hreads', ?_⟩
    rwa [List.append_assoc] at hrests'

end

/-- A reader that rests outside all blocks has read a whole program. -/
theorem Rests.close? {cs : List Command} {r : Reader} (h : Rests [] cs r) (text : List Char)
    (stop : Nat) : ∃ ss, r.close? text stop = some ss ∧ SayAll ss cs := by
  obtain ⟨done, pending, hsettle, hsay⟩ := h.settle trivial text stop
  refine ⟨done.reverse, ?_, hsay⟩
  unfold Reader.close?
  rw [if_pos h.settled, hsettle]

end Reader

/-- However the tokens of some commands are laid out, reading the text gives statements that say
these commands. -/
theorem parseStatements_of_layout {source : String} {cs : List Command}
    (h : Layout (tokensOf cs) source.toList) :
    ∃ ss, parseStatements source = .ok ss ∧ SayAll ss cs := by
  obtain ⟨htokens, hcomplete⟩ := scan_of_layout h fun t ht => proper_of_mem_tokensOf cs ht
  have hreader : ∃ r, Reader.Reads source.toList {} (Lexer.scan source.toList).lexemes r ∧
      Reader.Rests [] cs r :=
    (Reader.rests_nil []).reads_commands trivial cs htokens
  obtain ⟨r, hreads, hrests⟩ := hreader
  obtain ⟨ss, hclose, hsay⟩ := hrests.close? source.toList (Lexer.scan source.toList).stop
  have hread : readStatements source.toList = .ok ss :=
    Reader.readAll_eq_ok_iff.mpr ⟨hcomplete, r, hreads, hclose⟩
  refine ⟨ss, ?_, hsay⟩
  unfold parseStatements
  rw [hread]

end RobotPuzzle
