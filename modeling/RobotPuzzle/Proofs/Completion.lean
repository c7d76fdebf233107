import RobotPuzzle.Proofs.Joining

/-!
# Whatever was read can be completed

A reader never reads its way into a dead end. Whatever tokens it has taken, others lead on from
there to the end of a program: the statement under way needs only what its kind still lacks, with an
empty block where one has to follow, and then each open block needs its closing brace. A branch
after `else` has no brace of its own; it completes the branch around it as soon as it is complete
itself.

## Main definitions

* `Reader.depth` — the number of open blocks that have braces of their own
* `Reader.Placed` — a reader between two statements stands directly in a block with braces
* `Reader.Idle` — a reader that has nothing left to do but to close some blocks
* `Reader.Pending.ending`, `Reader.Ends` — tokens that complete the statement under way

## Main results

* `Reader.Advance.placed` — readers stay placed
* `Reader.Idle.reads_closeBraces` — the braces of all open blocks can be closed
* `Reader.ends_ending` — every statement can be ended
* `exists_readTokens_append` — tokens that a reader takes are the beginning of a program
-/

namespace RobotPuzzle

namespace Reader

variable {text : List Char} {r r' : Reader} {l : Lexeme} {frames : List Frame}
  {done : List Statement} {ts : List Token}

/-! ### Blocks in braces -/

/-- The number of open blocks with braces of their own, so of closing braces still to come. -/
def depth : List Frame → Nat
  | [] => 0
  | .elseIf .. :: frames => depth frames
  | .loop .. :: frames | .thenBlock .. :: frames | .elseBlock .. :: frames => depth frames + 1

/-- Between two statements, a reader stands directly in a block with braces, if it is in a block at
all. Within a statement, any block may be the innermost one. -/
def Placed (r : Reader) : Prop :=
  match r.pending with
  | .nothing | .separator => Braced r.frames
  | _ => True

/-- A complete statement completes the branches that it stands in after `else`, which have no braces
that could be closed with it. -/
theorem exists_complete (s : Statement) (frames : List Frame) (done : List Statement) :
    ∃ frames' done', complete s frames done = ⟨frames', done', .separator⟩ ∧ Braced frames' ∧
      depth frames' = depth frames := by
  -- on the open blocks, up to the first one that is in braces
  induction frames generalizing s done with
  | nil => exact ⟨_, _, rfl, trivial, rfl⟩
  | cons frame frames ih =>
    cases frame with
    | elseIf condition thenBlock before => exact ih _ _
    | loop | thenBlock | elseBlock => exact ⟨_, _, rfl, trivial, rfl⟩

theorem placed_complete (s : Statement) (frames : List Frame) (done : List Statement) :
    (complete s frames done).Placed := by
  obtain ⟨frames', done', heq, hbraced, -⟩ := exists_complete s frames done
  rw [heq]
  exact hbraced

theorem eq_nil_of_depth_eq_zero (h : Braced frames) (hdepth : depth frames = 0) :
    frames = [] := by
  cases frames with
  | nil => rfl
  | cons frame frames =>
    cases frame with
    | elseIf => exact h.elim
    | loop | thenBlock | elseBlock => cases hdepth

/-! ### Every reader is placed -/

theorem Pending.Grows.placed {p : Pending} (h : r.pending.Grows l p) :
    ({ r with pending := p } : Reader).Placed := by
  obtain ⟨frames, done, pending⟩ := r
  cases h <;> trivial

theorem Pending.Enters.braced {p : Pending} {frame : Frame} (h : p.Enters text done l frame)
    (frames : List Frame) : Braced (frame :: frames) := by
  cases h <;> trivial

theorem placed_of_opening? {p : Pending} (h : opening? l = some p) :
    (⟨frames, done, p⟩ : Reader).Placed := by
  obtain ⟨token, start, stop⟩ := l
  cases token <;> cases h <;> trivial

/-- The end of a block completes a statement, or leaves a branch to which `else` may be added. -/
theorem closeBlock?_cases (h : r.closeBlock? text = some r') :
    (∃ s frames done, r' = complete s frames done) ∨ ∃ c ss, r'.pending = .thenDone c ss := by
  obtain ⟨frames, done, pending⟩ := r
  cases frames with
  | nil => cases h
  | cons frame frames =>
    cases frame with
    | loop | elseBlock =>
      cases h
      exact .inl ⟨_, _, _, rfl⟩
    | thenBlock =>
      cases h
      exact .inr ⟨_, _, rfl⟩
    | elseIf => cases h

theorem placed_closeBlock? (h : r.closeBlock? text = some r') : r'.Placed := by
  obtain ⟨s, frames, done, rfl⟩ | ⟨c, ss, hpending⟩ := closeBlock?_cases h
  · exact placed_complete s frames done
  · rw [Placed, hpending]
    trivial

theorem placed_settle (h : r.Placed) (next : Nat) : (r.settle text next).Placed := by
  obtain ⟨frames, done, pending⟩ := r
  cases pending with
  | call | thenDone => exact placed_complete _ _ _
  | _ => exact h

/-- A placed reader is placed after every token. -/
theorem Advance.placed (h : r.Advance text l r') (hr : r.Placed) : r'.Placed := by
  cases h with
  | grow grows => exact grows.placed
  | call => exact placed_complete _ _ _
  | enter enters => exact enters.braced _
  | elseIf => trivial
  | opening _ first => exact placed_of_opening? first
  | semicolon => exact placed_settle hr l.start
  | closeBlock _ _ close => exact placed_closeBlock? close

theorem Reads.placed {ls : List Lexeme} (h : Reads text r ls r') (hr : r.Placed) : r'.Placed := by
  induction h with
  | nil => exact hr
  | cons hstep _ ih => exact ih ((advance_iff.mp hstep).placed hr)

/-! ### Tokens that end a statement -/

/-- An empty block. -/
def emptyBlock : List Token := [.openBrace, .closeBrace]

/-- What follows the sensor of a condition. -/
def conditionEnding (opened : Nat) : List Token :=
  List.replicate opened .closeParen ++ emptyBlock

/-- Tokens that complete the statement under way. -/
def Pending.ending : Pending → List Token
  | .nothing | .separator | .call _ | .thenDone .. => []
  | .callParen .. | .callNumber .. => [.closeParen]
  | .loop _ => .number "1" :: emptyBlock
  | .loopParen .. => .number "1" :: .closeParen :: emptyBlock
  | .loopNumber .. => .closeParen :: emptyBlock
  | .loopCount .. | .elseBranch .. => emptyBlock
  | .condition _ opened => .word "onFire" :: conditionEnding opened
  | .sensor _ opened _ | .sensorDone _ opened _ => conditionEnding opened
  | .sensorParen _ opened _ _ => .closeParen :: conditionEnding opened

theorem proper_emptyBlock : ∀ t ∈ emptyBlock, t.Proper := by
  simp [emptyBlock, Token.Proper]

theorem proper_conditionEnding (opened : Nat) : ∀ t ∈ conditionEnding opened, t.Proper := by
  refine List.forall_mem_append.mpr ⟨fun t ht => ?_, proper_emptyBlock⟩
  obtain rfl := List.eq_of_mem_replicate ht
  trivial

theorem Pending.proper_ending (p : Pending) : ∀ t ∈ p.ending, t.Proper := by
  have hone : (Token.number "1").Proper := ⟨rfl, rfl⟩
  have hparen : Token.closeParen.Proper := trivial
  cases p with
  | nothing | separator | call | thenDone => simp [ending]
  | callParen | callNumber => simpa [ending] using hparen
  | loop => exact List.forall_mem_cons.mpr ⟨hone, proper_emptyBlock⟩
  | loopParen =>
    exact List.forall_mem_cons.mpr ⟨hone, List.forall_mem_cons.mpr ⟨hparen, proper_emptyBlock⟩⟩
  | loopNumber => exact List.forall_mem_cons.mpr ⟨hparen, proper_emptyBlock⟩
  | loopCount | elseBranch => exact proper_emptyBlock
  | condition negated opened =>
    exact List.forall_mem_cons.mpr ⟨proper_onFire, proper_conditionEnding opened⟩
  | sensor negated opened | sensorDone negated opened => exact proper_conditionEnding opened
  | sensorParen negated opened =>
    exact List.forall_mem_cons.mpr ⟨hparen, proper_conditionEnding opened⟩

/-! ### Closing the open blocks -/

/-- A reader for which nothing is left to do but to close some blocks. -/
structure Idle (n : Nat) (r : Reader) : Prop where
  settled : r.pending.settled = true
  placed : r.Placed
  depth_eq : depth r.frames = n

section Idle

variable {n : Nat}

theorem idle_complete (s : Statement) (frames : List Frame) (done : List Statement) :
    (complete s frames done).Idle (depth frames) := by
  obtain ⟨frames', done', heq, hbraced, hdepth⟩ := exists_complete s frames done
  rw [heq]
  exact ⟨rfl, hbraced, hdepth⟩

theorem exists_closeBlock? (h : Braced frames) (hdepth : depth frames = n + 1)
    (done : List Statement) (pending : Pending) :
    ∃ r', (⟨frames, done, pending⟩ : Reader).closeBlock? text = some r' ∧ r'.Idle n := by
  cases frames with
  | nil => cases hdepth
  | cons frame frames =>
    cases frame with
    -- only this block could not be closed, and it is not the innermost one here
    | elseIf => exact h.elim
    | loop | elseBlock =>
      obtain rfl : depth frames = n := Nat.succ.inj hdepth
      exact ⟨_, rfl, idle_complete _ _ _⟩
    | thenBlock => exact ⟨_, rfl, rfl, trivial, Nat.succ.inj hdepth⟩

namespace Idle

/-- An idle reader stands directly in a block with braces as soon as its last statement is
complete. -/
theorem exists_settle (h : r.Idle n) (text : List Char) (next : Nat) :
    ∃ frames done pending, r.settle text next = ⟨frames, done, pending⟩ ∧
      Braced frames ∧ depth frames = n := by
  obtain ⟨frames, done, pending⟩ := r
  obtain ⟨hsettled, hplaced, rfl⟩ := h
  cases pending with
  | nothing | separator => exact ⟨frames, done, _, rfl, hplaced, rfl⟩
  | call | thenDone =>
    obtain ⟨frames', done', heq, hbraced, hdepth⟩ := exists_complete _ frames done
    exact ⟨frames', done', _, heq, hbraced, hdepth⟩
  | _ => cases hsettled

/-- A block can be closed where no statement is under way. -/
theorem exists_step?_closeBrace (h : r.Idle (n + 1)) (text : List Char) (start stop : Nat) :
    ∃ r', r.step? text ⟨.closeBrace, start, stop⟩ = some r' ∧ r'.Idle n := by
  obtain ⟨frames, done, pending, hsettle, hbraced, hdepth⟩ := h.exists_settle text start
  obtain ⟨r', hclose, hidle⟩ := exists_closeBlock? hbraced hdepth done pending
  exact ⟨r', advance_iff.mpr (.closeBlock h.settled rfl (hsettle ▸ hclose)), hidle⟩

/-- The braces of all open blocks can be closed one after the other. -/
theorem reads_closeBraces (h : r.Idle n) (text : List Char) :
    ∃ r', Reads text r (List.replicate n ⟨.closeBrace, 0, 0⟩) r' ∧ r'.Idle 0 := by
  -- on the blocks that are left to be closed
  induction n generalizing r with
  | zero => exact ⟨r, .nil, h⟩
  | succ n ih =>
    obtain ⟨r₁, hstep, h₁⟩ := h.exists_step?_closeBrace text 0 0
    obtain ⟨r', hreads, h'⟩ := ih h₁
    exact ⟨r', .cons hstep hreads, h'⟩

/-- Outside all blocks an idle reader may stop. -/
theorem exists_close? (h : r.Idle 0) (text : List Char) (stop : Nat) :
    ∃ ss, r.close? text stop = some ss := by
  obtain ⟨frames, done, pending, hsettle, hbraced, hdepth⟩ := h.exists_settle text stop
  obtain rfl := eq_nil_of_depth_eq_zero hbraced hdepth
  exact ⟨done.reverse, close?_eq_some_iff.mpr ⟨h.settled, by rw [hsettle], by rw [hsettle]⟩⟩

end Idle

end Idle

/-! ### Ending the statement under way -/

/-- The tokens lead the reader to the end of the statement under way, in the block in which it
stands. -/
def Ends (r : Reader) (ts : List Token) : Prop :=
  ∃ r', Reads [] r (ts.map fun t => ⟨t, 0, 0⟩) r' ∧ r'.Idle (depth r.frames)

section Ends

variable {t : Token}

theorem ends_cons (hstep : r.step? [] ⟨t, 0, 0⟩ = some r')
    (hdepth : depth r'.frames = depth r.frames) (h : r'.Ends ts) : r.Ends (t :: ts) := by
  obtain ⟨r'', hreads, hidle⟩ := h
  exact ⟨r'', .cons hstep hreads, hdepth ▸ hidle⟩

/-- A block that is opened can be left empty. -/
theorem ends_emptyBlock (hstep : r.step? [] ⟨.openBrace, 0, 0⟩ = some r')
    (h : r'.Idle (depth r.frames + 1)) : r.Ends emptyBlock := by
  obtain ⟨r'', hclose, hidle⟩ := h.exists_step?_closeBrace [] 0 0
  exact ⟨r'', .cons hstep (.cons hclose .nil), hidle⟩

variable (frames done) in
theorem ends_loopCount (start : Nat) (count : String) :
    (⟨frames, done, .loopCount start count⟩ : Reader).Ends emptyBlock :=
  ends_emptyBlock rfl ⟨rfl, trivial, rfl⟩

variable (frames done) in
theorem ends_sensorDone (negated : Bool) (opened : Nat) (name : Word) :
    (⟨frames, done, .sensorDone negated opened name⟩ : Reader).Ends (conditionEnding opened) := by
  induction opened with
  | zero => exact ends_emptyBlock rfl ⟨rfl, trivial, rfl⟩
  | succ opened ih => exact ends_cons rfl rfl ih

variable (frames done) in
theorem ends_sensor (negated : Bool) (opened : Nat) (name : Word) :
    (⟨frames, done, .sensor negated opened name⟩ : Reader).Ends (conditionEnding opened) := by
  cases opened with
  | zero => exact ends_emptyBlock rfl ⟨rfl, trivial, rfl⟩
  | succ opened => exact ends_cons rfl rfl (ends_sensorDone frames done negated opened name)

/-- Every statement can be ended. -/
theorem ends_ending (h : r.Placed) : r.Ends r.pending.ending := by
  obtain ⟨frames, done, pending⟩ := r
  -- what calls lack, then what loops, branches and conditions lack up to their block
  cases pending with
  | nothing | separator | call | thenDone => exact ⟨_, .nil, rfl, h, rfl⟩
  | callParen | callNumber => exact ⟨_, .cons rfl .nil, idle_complete _ _ _⟩
  | loop | loopNumber => exact ends_cons rfl rfl (ends_loopCount frames done _ _)
  | loopParen => exact ends_cons rfl rfl (ends_cons rfl rfl (ends_loopCount frames done _ _))
  | loopCount => exact ends_loopCount frames done _ _
  | elseBranch => exact ends_emptyBlock rfl ⟨rfl, trivial, rfl⟩
  | condition => exact ends_cons rfl rfl (ends_sensor frames done _ _ _)
  | sensor => exact ends_sensor frames done _ _ _
  | sensorParen => exact ends_cons rfl rfl (ends_sensorDone frames done _ _ _)
  | sensorDone => exact ends_sensorDone frames done _ _ _

end Ends

end Reader

/-- Tokens that a reader takes are the beginning of a program: others complete the statement under
way and then close the blocks that are open. -/
theorem exists_readTokens_append {ts : List Token} {r : Reader}
    (h : Reader.Reads [] {} (ts.map fun t => ⟨t, 0, 0⟩) r) :
    ∃ us, (∀ t ∈ us, t.Proper) ∧ ∃ ss, readTokens (ts ++ us) = some ss := by
  -- a reader is placed before it has read anything, so also now
  obtain ⟨r₁, hending, hidle⟩ := Reader.ends_ending (h.placed trivial)
  obtain ⟨r₂, hclosing, hidle'⟩ := hidle.reads_closeBraces []
  obtain ⟨ss, hclose⟩ := hidle'.exists_close? [] 0
  refine ⟨r.pending.ending ++ List.replicate (Reader.depth r.frames) .closeBrace, ?_, ss, ?_⟩
  · refine List.forall_mem_append.mpr ⟨r.pending.proper_ending, fun t ht => ?_⟩
    obtain rfl := List.eq_of_mem_replicate ht
    trivial
  · refine readTokens_eq_some_iff.mpr ⟨r₂, ?_, hclose⟩
    rw [List.map_append, List.map_append, List.map_replicate]
    exact h.append (hending.append hclosing)

end RobotPuzzle
