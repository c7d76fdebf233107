import Mathlib.Data.List.Forall2
import RobotPuzzle.Proofs.Phrases

/-!
# Which tokens statements stand at

Each statement of a tree is known by one of its tokens: a call by its name, a loop by its first word
and a branch by its sensor. Taken in the order of the text, the statements of a tree at every depth
stand at the names and the words `repeat` of the text, one for one. A call has more tokens than its
name if it has an argument, and what a tree has as its text goes up to the last one of them; behind
a name alone it goes up to the next token. A reader that is still at work has a tree too, the one
that it would make if the open blocks ended where it is, and only the token of the statement under
way may be ahead of that tree.

## Main definitions

* `outline` — the statements of a block at every depth, each without its own blocks
* `CallSite` — a call among the tokens of a text
* `CallSite.Shows` — what a tree and a quotation tell of the call
* `Statement.StandsAt` — the token that a statement is known by
* `Reader.soFar` — the tree of a reader, as far as it has come
* `Reader.Accounts` — the statements of that tree stand at the tokens that were read

## Main results

* `Reader.outline_closed` — one more statement comes behind all those before it
* `Reader.soFar_closeBlock?` — the end of a block changes nothing of the tree
* `Reader.Accounts.advance` — a reader accounts for every token that it reads
* `Reader.standsAt_of_readAll` — the statements of a tree stand at the tokens of its text, in their
  order
-/

namespace RobotPuzzle

/-! ### Outlines -/

/-- A statement without its blocks. -/
def Statement.head : Statement → Statement
  | .loop count _ l => .loop count [] l
  | .branch condition _ _ => .branch condition [] none
  | s => s

/-- The statements of a block and those in their blocks, in the order of the text, each without its
own blocks. -/
def outline (ss : List Statement) : List Statement := (nodesOf ss).map Statement.head

section Outline

variable (ss ts : List Statement) (count : String) (l : Location) (c : Condition)

@[simp] theorem outline_nil : outline [] = [] := rfl

@[simp] theorem outline_append : outline (ss ++ ts) = outline ss ++ outline ts := by
  rw [outline, nodesOf_append, List.map_append]
  rfl

@[simp] theorem outline_loop : outline [.loop count ss l] = .loop count [] l :: outline ss := by
  simp [outline, nodesOf, Statement.nodes, Statement.head]

@[simp] theorem outline_branch_none :
    outline [.branch c ss none] = .branch c [] none :: outline ss := by
  simp [outline, nodesOf, nodesOfElse, Statement.nodes, Statement.head]

@[simp] theorem outline_branch_some :
    outline [.branch c ss (some ts)] = .branch c [] none :: (outline ss ++ outline ts) := by
  simp [outline, nodesOf, nodesOfElse, Statement.nodes, Statement.head]

/-- A statement read after others. -/
theorem outline_reverse_cons (s : Statement) (done : List Statement) :
    outline (s :: done).reverse = outline done.reverse ++ outline [s] := by
  rw [List.reverse_cons, outline_append]

end Outline

/-! ### Calls among the tokens of a text -/

/-- An argument may begin with the token. -/
def Token.beginsArgument : Token → Bool
  | .number _ | .openParen => true
  | _ => false

/-- A call among the tokens of a text: a name and the tokens of its argument, if it has one. A name
stands alone only where no argument begins behind it. -/
structure CallSite (ls : List Lexeme) where
  before : List Lexeme
  name : Lexeme
  operand : List Lexeme
  after : List Lexeme
  form : Argument
  lexemes_eq : ls = before ++ name :: (operand ++ after)
  operand_eq : operand.map Lexeme.token = form.tokens
  alone : operand = [] → ∀ l ∈ after.head?, l.token.beginsArgument = false

/-- Where a text goes on with the first of some tokens, or its end if there is none. -/
def nextStart (text : List Char) (ls : List Lexeme) : Nat :=
  (ls.head?.map Lexeme.start).getD text.length

namespace CallSite

variable {ls : List Lexeme} (site : CallSite ls) (text : List Char)

/-- The last token of the call. -/
def last : Lexeme := site.operand.getLast?.getD site.name

/-- Where the quotation of the call ends, before it is trimmed. -/
def limit : Nat := if site.operand = [] then nextStart text site.after else site.last.stop

theorem last_of_alone (h : site.operand = []) : site.last = site.name := by
  rw [last, h]
  rfl

/-- The last token of the call stands before the tokens behind the call. -/
theorem exists_eq_append_last : ∃ before, ls = before ++ site.last :: site.after := by
  rcases List.eq_nil_or_concat site.operand with hnil | ⟨init, l, hconcat⟩
  · refine ⟨site.before, ?_⟩
    rw [site.last_of_alone hnil]
    simpa [hnil] using site.lexemes_eq
  · refine ⟨site.before ++ site.name :: init, ?_⟩
    have hlast : site.last = l := by simp [last, hconcat]
    rw [hlast]
    simpa [hconcat] using site.lexemes_eq

theorem name_mem : site.name ∈ ls := by
  have hmem : site.name ∈ site.before ++ site.name :: (site.operand ++ site.after) :=
    List.mem_append_right _ List.mem_cons_self
  rwa [← site.lexemes_eq] at hmem

theorem last_mem : site.last ∈ ls := by
  obtain ⟨before, heq⟩ := site.exists_eq_append_last
  have hmem : site.last ∈ before ++ site.last :: site.after :=
    List.mem_append_right _ List.mem_cons_self
  rwa [← heq] at hmem

/-- The other tokens of a call, and those behind it, stand behind its name. -/
theorem stop_le_start (h : ls.Pairwise fun l m => l.stop ≤ m.start) {l : Lexeme}
    (hl : l ∈ site.operand ++ site.after) : site.name.stop ≤ l.start := by
  have heq := site.lexemes_eq
  rw [heq, List.pairwise_append] at h
  obtain ⟨-, hcall, -⟩ := h
  exact (List.pairwise_cons.mp hcall).1 l hl

theorem last_mem_operand (h : site.operand ≠ []) : site.last ∈ site.operand := by
  rw [last, List.getLast?_eq_getLast_of_ne_nil h]
  exact List.getLast_mem h

/-- What a tree and a quotation tell of the call: its name and the number of its argument, where it
stands, and how far it goes. -/
structure Shows (name : String) (argument : Option String) (quoted : String)
    (location : Location) : Prop where
  name_eq : site.name.token = .word name
  number_eq : site.form.number? = argument
  location_eq : location = .ofOffset text site.name.start
  quoted_eq : quoted = String.ofList (trimEnd (slice text site.name.start (site.limit text)))

end CallSite

/-- The statement was read at the token that it is known by: a call at its name, which is that of a
call among all tokens, a loop at its first word and a branch at its sensor. -/
def Statement.StandsAt (text : List Char) (all : List Lexeme) : Statement → Lexeme → Prop
  | .call name argument quoted location, l =>
    ∃ site : CallSite all, site.name = l ∧ site.Shows text name argument quoted location
  | .loop _ _ location, l => l.token = .repeatWord ∧ location = .ofOffset text l.start
  | .branch c _ _, l => l.token = .word c.sensor ∧ c.location = .ofOffset text l.start

theorem Statement.standsAt_head {text : List Char} {all : List Lexeme} {s : Statement}
    {l : Lexeme} : s.head.StandsAt text all l ↔ s.StandsAt text all l := by
  cases s <;> rfl

theorem exists_standsAt_of_mem {text : List Char} {all ls : List Lexeme} {ss : List Statement}
    {s : Statement} (h : List.Forall₂ (Statement.StandsAt text all) ss ls) (hs : s ∈ ss) :
    ∃ l ∈ ls, s.StandsAt text all l := by
  induction h with
  | nil => cases hs
  | cons hfirst _ ih =>
    rcases List.mem_cons.mp hs with rfl | hs
    · exact ⟨_, List.mem_cons_self, hfirst⟩
    · obtain ⟨l, hl, hstands⟩ := ih hs
      exact ⟨l, List.mem_cons_of_mem _ hl, hstands⟩

/-- The token of a word. -/
def Word.lexeme (w : Word) : Lexeme := ⟨.word w.name, w.start, w.stop⟩

/-- Whether a statement may stand at a token. -/
def Lexeme.leads (l : Lexeme) : Bool :=
  match l.token with
  | .word _ | .repeatWord => true
  | _ => false

namespace Reader

variable {text : List Char} {r r' : Reader} {frames : List Frame} {done : List Statement}
  {l : Lexeme} {all past past' after ns ms : List Lexeme} {next : Nat}

/-! ### The tree of a reader -/

variable (text) in
/-- The statements that have been read if the open blocks end here. -/
def closed : List Frame → List Statement → List Statement
  | [], done => done.reverse
  | .loop start count before :: frames, done =>
    closed frames (.loop count done.reverse (.ofOffset text start) :: before)
  | .thenBlock c before :: frames, done => closed frames (.branch c done.reverse none :: before)
  | .elseBlock c ss before :: frames, done | .elseIf c ss before :: frames, done =>
    closed frames (.branch c ss (some done.reverse) :: before)

/-- The statement under way, if it has got as far as to have a block. -/
def Pending.begun : Pending → List Statement
  | .thenDone c ss | .elseBranch c ss => [.branch c ss none]
  | _ => []

theorem Pending.begun_eq_nil {p : Pending} (h : p = .nothing ∨ p = .separator) : p.begun = [] := by
  rcases h with rfl | rfl <;> rfl

variable (text) in
/-- The statements that a reader has read if the open blocks end here. -/
def soFar (r : Reader) : List Statement := closed text r.frames (r.pending.begun ++ r.done)

/-- Once nothing is under way and no block is open, the tree has what was read. -/
theorem soFar_eq_reverse (hframes : r.frames = [])
    (hpending : r.pending = .nothing ∨ r.pending = .separator) : r.soFar text = r.done.reverse := by
  rw [soFar, hframes, Pending.begun_eq_nil hpending]
  rfl

/-- One more statement comes behind all those before it. -/
theorem outline_closed (s : Statement) (frames : List Frame) (done : List Statement) :
    outline (closed text frames (s :: done)) =
      outline (closed text frames done) ++ outline [s] := by
  -- on the open blocks: the statement is the last one in the last statement of the block around it
  induction frames generalizing s done with
  | nil => exact outline_reverse_cons s done
  | cons frame frames ih =>
    cases frame with
    | loop start count before =>
      rw [closed, closed, ih, ih, outline_loop, outline_loop, outline_reverse_cons,
        List.append_assoc, List.cons_append]
    | thenBlock c before =>
      rw [closed, closed, ih, ih, outline_branch_none, outline_branch_none, outline_reverse_cons,
        List.append_assoc, List.cons_append]
    | elseBlock c ss before | elseIf c ss before =>
      rw [closed, closed, ih, ih, outline_branch_some, outline_branch_some, outline_reverse_cons,
        List.append_assoc, List.cons_append, List.append_assoc]

/-- A branch with nothing in its second block yet is in the tree already. -/
theorem outline_closed_empty_else (c : Condition) (ss : List Statement) (frames : List Frame)
    (done : List Statement) :
    outline (closed text frames (.branch c ss (some []) :: done)) =
      outline (closed text frames (.branch c ss none :: done)) := by
  rw [outline_closed, outline_closed, outline_branch_some, outline_branch_none, outline_nil,
    List.append_nil]

/-- A statement that is complete completes the branches around it, as a tree has it anyway. -/
theorem soFar_complete (htidy : TidyFrames frames done) (s : Statement) :
    (complete s frames done).soFar text = closed text frames (s :: done) := by
  induction frames generalizing s done with
  | nil => rfl
  | cons frame frames ih =>
    obtain ⟨halone, hframes⟩ := htidy
    cases frame with
    | elseIf c ss before =>
      obtain rfl := halone _ _ _ rfl
      exact ih hframes _
    | loop | thenBlock | elseBlock => rfl

theorem soFar_push (htidy : r.Tidy) (s : Statement) :
    (r.push s).soFar text = closed text r.frames (s :: r.done) := soFar_complete htidy s

/-- The end of a block changes nothing of the tree. -/
theorem soFar_closeBlock? (htidy : r.Tidy) (hbegun : r.pending.begun = [])
    (hclose : r.closeBlock? text = some r') : r'.soFar text = r.soFar text := by
  obtain ⟨frames, done, pending⟩ := r
  have hsoFar : (⟨frames, done, pending⟩ : Reader).soFar text = closed text frames done :=
    congrArg (fun begun => closed text frames (begun ++ done)) hbegun
  rw [hsoFar]
  cases frames with
  | nil => cases hclose
  | cons frame frames =>
    have houter : TidyFrames frames frame.before := htidy.2
    cases frame with
    | loop start count before =>
      obtain rfl := Option.some.inj hclose
      exact soFar_complete houter _
    | thenBlock c before =>
      obtain rfl := Option.some.inj hclose
      rfl
    | elseBlock c ss before =>
      obtain rfl := Option.some.inj hclose
      exact soFar_complete houter _
    | elseIf => cases hclose

/-! ### Accounting for tokens -/

/-- The token that the statement under way will stand at, as long as it is in no tree. -/
def Pending.LedBy : Pending → List Lexeme → Prop
  | .call name, ls | .callParen name _, ls | .callNumber name _ _, ls
  | .sensor _ _ name, ls | .sensorParen _ _ name _, ls | .sensorDone _ _ name, ls =>
    ls = [name.lexeme]
  | .loop start, ls | .loopParen start _, ls | .loopNumber start _ _, ls | .loopCount start _, ls =>
    ∃ stop, ls = [⟨.repeatWord, start, stop⟩]
  | _, ls => ls = []

/-- The tokens of a call under way are the last ones that were read. -/
def Pending.Trails : Pending → List Lexeme → Prop
  | .call name, past => ∃ before, past = before ++ [name.lexeme]
  | .callParen name _, past => ∃ before p, past = before ++ [name.lexeme, p] ∧ p.token = .openParen
  | .callNumber name _ digits, past =>
    ∃ before p n, past = before ++ [name.lexeme, p, n] ∧ p.token = .openParen ∧
      n.token = .number digits
  | _, _ => True

variable (text all) in
/-- The statements of a reader's tree stand at the tokens that were read for it. The last of these
may be the one of the statement under way, and if that is a call, its tokens are the last ones of
all. -/
structure Accounts (r : Reader) (past : List Lexeme) : Prop where
  trails : r.pending.Trails past
  stands : ∃ ms ns, past.filter Lexeme.leads = ms ++ ns ∧
    List.Forall₂ (Statement.StandsAt text all) (outline (r.soFar text)) ms ∧ r.pending.LedBy ns

section Pending

variable {p p' : Pending} {name : Word} {argument : Option String}

/-! What is under way when nothing has begun has come to no token yet. -/

theorem Pending.trails_of_between (h : p = .nothing ∨ p = .separator) (past : List Lexeme) :
    p.Trails past := by
  rcases h with rfl | rfl <;> trivial

theorem Pending.ledBy_of_between (h : p = .nothing ∨ p = .separator) : p.LedBy ns ↔ ns = [] := by
  rcases h with rfl | rfl <;> rfl

/-- Nor has it after a block has been closed. -/
theorem trails_closeBlock? (h : r.closeBlock? text = some r') (past : List Lexeme) :
    r'.pending.Trails past := by
  obtain ⟨s, frames, done, rfl⟩ | ⟨c, ss, hpending⟩ := closeBlock?_cases h
  · exact Pending.trails_of_between (.inr (pending_complete _ _ _)) past
  · rw [hpending]
    trivial

theorem ledBy_nil_closeBlock? (h : r.closeBlock? text = some r') : r'.pending.LedBy [] := by
  obtain ⟨s, frames, done, rfl⟩ | ⟨c, ss, hpending⟩ := closeBlock?_cases h
  · exact (Pending.ledBy_of_between (.inr (pending_complete _ _ _))).mpr rfl
  · rw [hpending]
    rfl

theorem Pending.Grows.begun (h : p.Grows l p') : p'.begun = p.begun := by
  cases h <;> rfl

theorem Pending.Grows.ledBy (h : p.Grows l p') (hled : p.LedBy ns) :
    p'.LedBy (ns ++ [l].filter Lexeme.leads) := by
  cases h with
  | sensor =>
    obtain rfl : ns = [] := hled
    rfl
  | _ => exact (List.append_nil ns).symm ▸ hled

theorem Pending.Grows.trails (h : p.Grows l p') (htrails : p.Trails past) :
    p'.Trails (past ++ [l]) := by
  cases h with
  | callParen =>
    obtain ⟨before, rfl⟩ := htrails
    exact ⟨before, _, List.append_assoc .., rfl⟩
  | callNumber =>
    obtain ⟨before, p, rfl, hp⟩ := htrails
    exact ⟨before, p, _, List.append_assoc .., hp, rfl⟩
  | _ => trivial

theorem Pending.Calls.ledBy (h : p.Calls l name argument) (hled : p.LedBy ns) :
    ns = [name.lexeme] := by
  cases h <;> exact hled

theorem Pending.Calls.begun (h : p.Calls l name argument) : p.begun = [] := by
  cases h <;> rfl

theorem Pending.Calls.leads (h : p.Calls l name argument) : [l].filter Lexeme.leads = [] := by
  cases h <;> rfl

/-- The last token of a call makes it a call among all tokens. -/
theorem Pending.Calls.exists_site (h : p.Calls l name argument) (htrails : p.Trails past)
    (hall : all = past ++ l :: after) :
    ∃ site : CallSite all, site.name = name.lexeme ∧ site.form.number? = argument ∧
      site.limit text = l.stop := by
  cases h with
  | @bare _ start stop digits =>
    obtain ⟨before, rfl⟩ := htrails
    exact ⟨{ before, after, name := name.lexeme, operand := [⟨.number digits, start, stop⟩]
             form := .bare digits, lexemes_eq := by simpa using hall, operand_eq := rfl
             alone := nofun }, rfl, rfl, rfl⟩
  | @parens _ _ start stop =>
    obtain ⟨before, p, rfl, hp⟩ := htrails
    exact ⟨{ before, after, name := name.lexeme, operand := [p, ⟨.closeParen, start, stop⟩]
             form := .parens, lexemes_eq := by simpa using hall
             operand_eq := by simp [hp, Argument.tokens], alone := nofun }, rfl, rfl, rfl⟩
  | @grouped _ _ start stop digits =>
    obtain ⟨before, p, n, rfl, hp, hn⟩ := htrails
    exact ⟨{ before, after, name := name.lexeme, operand := [p, n, ⟨.closeParen, start, stop⟩]
             form := .grouped digits, lexemes_eq := by simpa using hall
             operand_eq := by simp [hp, hn, Argument.tokens], alone := nofun }, rfl, rfl, rfl⟩

/-- A statement that begins has no block yet, and its first token may be the one it stands at. -/
theorem begun_of_opening? (h : opening? l = some p) : p.begun = [] := by
  obtain ⟨token, start, stop⟩ := l
  cases token <;> cases h <;> rfl

theorem ledBy_of_opening? (h : opening? l = some p) : p.LedBy ([l].filter Lexeme.leads) := by
  obtain ⟨token, start, stop⟩ := l
  cases token with
  | repeatWord =>
    cases h
    exact ⟨stop, rfl⟩
  | _ => cases h <;> rfl

theorem trails_of_opening? (h : opening? l = some p) (past : List Lexeme) :
    p.Trails (past ++ [l]) := by
  obtain ⟨token, start, stop⟩ := l
  cases token with
  | word =>
    cases h
    exact ⟨past, rfl⟩
  | _ => cases h <;> trivial

theorem beginsArgument_of_opening? (h : opening? l = some p) : l.token.beginsArgument = false := by
  obtain ⟨token, start, stop⟩ := l
  cases token <;> cases h <;> rfl

end Pending

namespace Accounts

/-- The tree stays as it is, and the statement under way may come to the token that it will stand
at. -/
theorem go_on (h : r.Accounts text all past)
    (houtline : outline (r'.soFar text) = outline (r.soFar text))
    (hled : ∀ ns, r.pending.LedBy ns → r'.pending.LedBy (ns ++ [l].filter Lexeme.leads))
    (htrails : r'.pending.Trails (past ++ [l])) : r'.Accounts text all (past ++ [l]) := by
  obtain ⟨ms, ns, heq, hstand, hns⟩ := h.stands
  refine ⟨htrails, ms, ns ++ [l].filter Lexeme.leads, ?_, houtline ▸ hstand, hled ns hns⟩
  rw [List.filter_append, heq, List.append_assoc]

/-- The statement under way enters the tree, and stands at the token that was noted for it. -/
theorem enter (h : r.Accounts text all past) {s : Statement}
    (hsoFar : r'.soFar text = closed text r.frames (s :: (r.pending.begun ++ r.done)))
    (hs : ∀ ns, r.pending.LedBy ns →
      List.Forall₂ (Statement.StandsAt text all) (outline [s]) ns)
    (hpending : r'.pending = .nothing ∨ r'.pending = .separator)
    (hpast : past'.filter Lexeme.leads = past.filter Lexeme.leads) :
    r'.Accounts text all past' := by
  obtain ⟨ms, ns, heq, hstand, hns⟩ := h.stands
  refine ⟨Pending.trails_of_between hpending past', ms ++ ns, [], ?_, ?_,
    (Pending.ledBy_of_between hpending).mpr rfl⟩
  · rw [hpast, heq, List.append_nil]
  · rw [hsoFar, outline_closed]
    exact List.rel_append hstand (hs ns hns)

/-- A call that is complete stands at its name. -/
theorem push_callOf (h : r.Accounts text all past) (htidy : r.Tidy) {name : Word}
    {argument : Option String} (hbegun : r.pending.begun = [])
    (hled : ∀ ns, r.pending.LedBy ns → ns = [name.lexeme])
    (hsite : ∃ site : CallSite all, site.name = name.lexeme ∧ site.form.number? = argument ∧
      site.limit text = next)
    (hpast : past'.filter Lexeme.leads = past.filter Lexeme.leads) :
    (r.push (callOf text name argument next)).Accounts text all past' := by
  obtain ⟨site, hname, hnumber, rfl⟩ := hsite
  refine h.enter (s := callOf text name argument (site.limit text)) ?_ ?_
    (.inr (pending_complete _ _ _)) hpast
  · rw [soFar_push htidy, hbegun]
    rfl
  · intro ns hns
    obtain rfl := hled ns hns
    refine .cons ⟨site, hname, ?_, hnumber, ?_, ?_⟩ .nil <;> rw [hname] <;> rfl

/-- Completing the statement under way keeps the account, if no argument begins behind it. -/
theorem settle (h : r.Accounts text all past) (htidy : r.Tidy)
    (hsettled : r.pending.settled = true) (hall : all = past ++ after)
    (halone : ∀ l ∈ after.head?, l.token.beginsArgument = false) :
    (r.settle text (nextStart text after)).Accounts text all past := by
  obtain ⟨frames, done, pending⟩ := r
  cases pending with
  | call name =>
    obtain ⟨before, rfl⟩ := h.trails
    let site : CallSite all :=
      { before, after, name := name.lexeme, operand := [], form := .absent
        lexemes_eq := by simpa using hall, operand_eq := rfl, alone := fun _ => halone }
    exact h.push_callOf htidy rfl (fun _ => id) ⟨site, rfl, rfl, rfl⟩ rfl
  | thenDone c ss =>
    -- the branch is in the tree already
    obtain ⟨ms, ns, heq, hstand, rfl⟩ := h.stands
    have hseparator : ((⟨frames, done, .thenDone c ss⟩ : Reader).settle text
        (nextStart text after)).pending = .separator := pending_complete _ _ _
    refine ⟨Pending.trails_of_between (.inr hseparator) past, ms, [], heq, ?_,
      (Pending.ledBy_of_between (.inr hseparator)).mpr rfl⟩
    rw [Reader.settle, soFar_push htidy]
    exact hstand
  | nothing | separator => exact h
  | _ => cases hsettled

/-- The statement under way enters the tree with its block, unless it is a branch that is in the
tree already. -/
theorem enterBlock {frame : Frame} (h : r.Accounts text all past)
    (henters : r.pending.Enters text r.done l frame) :
    ({ frames := frame :: r.frames } : Reader).Accounts text all (past ++ [l]) := by
  obtain ⟨frames, done, pending⟩ := r
  have hpast : (past ++ [l]).filter Lexeme.leads = past.filter Lexeme.leads := by
    rw [List.filter_append]
    cases henters <;> exact List.append_nil _
  cases henters with
  | @loop first _ _ count =>
    refine h.enter (s := .loop count [] (.ofOffset text first)) rfl ?_ (.inl rfl) hpast
    rintro ns ⟨stop, rfl⟩
    exact .cons ⟨rfl, rfl⟩ .nil
  | @sensor negated name | @sensorDone negated name =>
    refine h.enter (s := .branch ⟨negated, name.name, .ofOffset text name.start⟩ [] none) rfl ?_
      (.inl rfl) hpast
    rintro ns rfl
    exact .cons ⟨rfl, rfl⟩ .nil
  | elseBlock =>
    refine h.go_on (outline_closed_empty_else _ _ frames done) ?_ trivial
    rintro ns rfl
    rfl

/-- What is under way lacks nothing, so a new statement may begin behind it. -/
theorem opening {p : Pending} (h : r.Accounts text all past)
    (hbetween : r.pending = .nothing ∨ r.pending = .separator) (hfirst : opening? l = some p) :
    ({ r with pending := p } : Reader).Accounts text all (past ++ [l]) := by
  obtain ⟨ms, ns, heq, hstand, hns⟩ := h.stands
  obtain rfl := (Pending.ledBy_of_between hbetween).mp hns
  refine ⟨trails_of_opening? hfirst past, ms, [l].filter Lexeme.leads, ?_, ?_,
    ledBy_of_opening? hfirst⟩
  · rw [List.filter_append, heq, List.append_nil]
  · rw [soFar, begun_of_opening? hfirst, ← Pending.begun_eq_nil hbetween]
    exact hstand

/-- A reader accounts for every token that it reads. -/
theorem advance (h : r.Accounts text all past) (htidy : r.Tidy) (hall : all = past ++ l :: after)
    (hadvance : r.Advance text l r') : r'.Accounts text all (past ++ [l]) := by
  have hbehind (hsettled : r.pending.settled = true) (halone : l.token.beginsArgument = false) :
      (r.settle text (nextStart text (l :: after))).Accounts text all past := by
    refine h.settle htidy hsettled hall ?_
    rintro m ⟨⟩
    exact halone
  have htidy' : (r.settle text l.start).Tidy := (gains_settle text l.start htidy).1
  cases hadvance with
  | grow grows =>
    refine h.go_on ?_ (fun _ => grows.ledBy) (grows.trails h.trails)
    rw [soFar, grows.begun]
    rfl
  | call calls =>
    refine h.push_callOf htidy calls.begun (fun _ => calls.ledBy)
      (calls.exists_site h.trails hall) ?_
    rw [List.filter_append, calls.leads, List.append_nil]
  | enter enters => exact h.enterBlock enters
  | elseIf branch word =>
    obtain ⟨frames, done, pending⟩ := r
    obtain ⟨token, start, stop⟩ := l
    cases branch
    cases word
    refine h.go_on (outline_closed_empty_else _ _ frames done) ?_ trivial
    rintro ns rfl
    rfl
  | opening settled first =>
    exact (hbehind settled (beginsArgument_of_opening? first)).opening
      (pending_settle text settled l.start) first
  | semicolon settled separator mark =>
    obtain ⟨token, start, stop⟩ := l
    cases mark
    refine (hbehind settled rfl).go_on rfl (fun ns hns => ?_)
      (Pending.trails_of_between (.inr separator) _)
    exact (List.append_nil ns).symm ▸ hns
  | closeBlock settled mark close =>
    obtain ⟨token, start, stop⟩ := l
    cases mark
    have hbetween := pending_settle text settled start
    refine (hbehind settled rfl).go_on
      (congrArg outline (soFar_closeBlock? htidy' (Pending.begun_eq_nil hbetween) close))
      (fun ns hns => ?_) (trails_closeBlock? close _)
    rw [(Pending.ledBy_of_between hbetween).mp hns]
    exact ledBy_nil_closeBlock? close

end Accounts

/-- A reader accounts for all tokens that it reads. -/
theorem Reads.accounts {ls : List Lexeme} (hreads : Reads text r ls r')
    (h : r.Accounts text all past) (htidy : r.Tidy) (hall : all = past ++ ls) :
    r'.Accounts text all all := by
  induction hreads generalizing past with
  | nil =>
    rw [List.append_nil] at hall
    exact hall ▸ h
  | cons hstep _ ih =>
    have hadvance := advance_iff.mp hstep
    refine ih (h.advance htidy hall hadvance) (hadvance.gains htidy).1 ?_
    rw [List.append_assoc]
    exact hall

/-- The statements of a tree, at every depth and in their order, stand at the tokens of its text
that may lead a statement. -/
theorem standsAt_of_readAll {complete : Bool} {ss : List Statement}
    (h : readAll text text.length complete {} all = .ok ss) :
    List.Forall₂ (Statement.StandsAt text all) (nodesOf ss) (all.filter Lexeme.leads) := by
  obtain ⟨-, r, hreads, hclose⟩ := readAll_eq_ok_iff.mp h
  obtain ⟨hsettled, hframes, rfl⟩ := close?_eq_some_iff.mp hclose
  have hempty : Accounts text all {} [] := ⟨trivial, [], [], rfl, .nil, rfl⟩
  have hread : r.Accounts text all all := hreads.accounts hempty trivial rfl
  have hend : (r.settle text (nextStart text [])).Accounts text all all :=
    hread.settle (hreads.gains trivial).1 hsettled (List.append_nil all).symm nofun
  -- nothing is left under way, and no block is open around the statements that were read
  have hbetween := pending_settle text hsettled text.length
  obtain ⟨ms, ns, heq, hstand, hns⟩ := hend.stands
  obtain rfl := (Pending.ledBy_of_between hbetween).mp hns
  rw [List.append_nil] at heq
  have hsoFar : (r.settle text (nextStart text [])).soFar text =
      (r.settle text text.length).done.reverse := soFar_eq_reverse hframes hbetween
  rw [hsoFar] at hstand
  rw [heq]
  exact (List.forall₂_map_left_iff.mp hstand).imp fun _ _ => Statement.standsAt_head.mp

end Reader

end RobotPuzzle
