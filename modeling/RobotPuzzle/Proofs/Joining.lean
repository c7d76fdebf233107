import RobotPuzzle.Proofs.Budget
import RobotPuzzle.Proofs.Erasure
import RobotPuzzle.Proofs.Keeping
import RobotPuzzle.Proofs.RoundTrip

/-!
# Programs one after the other

Two programs with a line end between them are one program: it has the statements of the first one
and then those of the second one. A reader goes on in the same way behind statements that it read
before, and at the end of a program whatever is under way lacks nothing, so the next token begins
something new. The commands come one after the other as well, as far as the counter can tell their
work; where the meter is full, compiling may keep less of the second program than of it alone.

## Main definitions

* `Reader.behind` — a reader that has read some statements before
* `overfullStart` — a program that fills the counter

## Main results

* `Reader.reads_behind` — a reader goes on behind other statements as it does without them
* `readTokens_append` — the tokens of two programs are read one program after the other
* `keptOf_of_later` — what compiling keeps of statements if it begins with a fuller meter
* `compile_append` — the commands of statements one after the other
* `parse_append_line` — what two programs in one text come to
-/

namespace RobotPuzzle

namespace Reader

/-! ### Reading behind other statements -/

/-- The statements of a block behind others, if it is the outermost one. The latest come first. -/
def behindDone (earlier : List Statement) : List Frame → List Statement → List Statement
  | [], done => done ++ earlier
  | _ :: _, done => done

/-- An open block with other statements before its own. -/
def Frame.mapBefore (f : List Statement → List Statement) : Frame → Frame
  | .loop start count before => .loop start count (f before)
  | .thenBlock c before => .thenBlock c (f before)
  | .elseBlock c ss before => .elseBlock c ss (f before)
  | .elseIf c ss before => .elseIf c ss (f before)

/-- Open blocks behind other statements. -/
def behindFrames (earlier : List Statement) : List Frame → List Frame
  | [] => []
  | frame :: frames =>
    frame.mapBefore (behindDone earlier frames) :: behindFrames earlier frames

/-- The reader as it would be if it had read other statements before, the latest of which come
first. -/
def behind (earlier : List Statement) (r : Reader) : Reader where
  frames := behindFrames earlier r.frames
  done := behindDone earlier r.frames r.done
  pending := r.pending

section Behind

variable (text : List Char) (earlier : List Statement) (r : Reader)

theorem complete_behind (s : Statement) (frames : List Frame) (done : List Statement) :
    (complete s frames done).behind earlier =
      complete s (behindFrames earlier frames) (behindDone earlier frames done) := by
  -- on the open blocks, as a branch after `else` completes the one around it
  induction frames generalizing s done with
  | nil => rfl
  | cons frame frames ih =>
    cases frame with
    | elseIf condition thenBlock before =>
      exact ih (.branch condition thenBlock (some [s])) before
    | loop | thenBlock | elseBlock => rfl

theorem push_behind (s : Statement) : (r.push s).behind earlier = (r.behind earlier).push s :=
  complete_behind earlier s r.frames r.done

theorem settle_behind (next : Nat) :
    (r.settle text next).behind earlier = (r.behind earlier).settle text next := by
  obtain ⟨frames, done, pending⟩ := r
  cases pending with
  | call | thenDone => exact push_behind earlier _ _
  | _ => rfl

theorem closeBlock?_behind :
    (r.behind earlier).closeBlock? text = (r.closeBlock? text).map (behind earlier) := by
  obtain ⟨frames, done, pending⟩ := r
  cases frames with
  | nil => rfl
  | cons frame frames =>
    cases frame with
    | loop | elseBlock => exact congrArg some (complete_behind earlier _ _ _).symm
    | thenBlock | elseIf => rfl

variable {text r} {r' : Reader} {l : Lexeme}

theorem Pending.Enters.behind {p : Pending} {done : List Statement} {frame : Frame}
    (h : p.Enters text done l frame) (f : List Statement → List Statement) :
    p.Enters text (f done) l (frame.mapBefore f) := by
  cases h <;> constructor

/-- Behind other statements, a token does the same. -/
theorem Advance.behind (h : r.Advance text l r') :
    (r.behind earlier).Advance text l (r'.behind earlier) := by
  have hsettle := settle_behind text earlier r l.start
  cases h with
  | grow grows => exact .grow grows
  | call calls =>
    rw [push_behind]
    exact .call calls
  | enter enters => exact .enter (enters.behind (behindDone earlier r.frames))
  | elseIf branch word => exact .elseIf branch word
  | @opening p settled first =>
    have hopened : ({ r.settle text l.start with pending := p } : Reader).behind earlier =
        { (r.settle text l.start).behind earlier with pending := p } := rfl
    rw [hopened, hsettle]
    exact .opening settled first
  | semicolon settled separator mark =>
    rw [hsettle]
    exact .semicolon settled (hsettle ▸ separator) mark
  | closeBlock settled mark close =>
    refine .closeBlock settled mark ?_
    rw [← hsettle, closeBlock?_behind, close]
    rfl

/-- A reader goes on behind other statements as it does without them. -/
theorem reads_behind {ls : List Lexeme} (h : Reads text r ls r') :
    Reads text (r.behind earlier) ls (r'.behind earlier) := by
  induction h with
  | nil => exact .nil
  | cons hstep _ ih => exact .cons (advance_iff.mpr ((advance_iff.mp hstep).behind earlier)) ih

/-- The other statements stand before those that a reader ends with. -/
theorem close?_behind {ss ts : List Statement} {stop : Nat} (h : r.close? text stop = some ts) :
    (r.behind ss.reverse).close? text stop = some (ss ++ ts) := by
  obtain ⟨hsettled, hframes, rfl⟩ := close?_eq_some_iff.mp h
  refine close?_eq_some_iff.mpr ⟨hsettled, ?_, ?_⟩
  · rw [← settle_behind]
    simp only [behind, hframes, behindFrames]
  · rw [← settle_behind]
    simp only [behind, hframes, behindDone, List.reverse_append, List.reverse_reverse]

end Behind

/-! ### Where one program ends and the next one begins -/

section Seam

variable {text : List Char} {r r' : Reader} {l : Lexeme}

/-- A program begins with the first token of a statement. -/
theorem opening_of_step? (h : ({} : Reader).step? text l = some r') :
    ∃ p, opening? l = some p ∧ r' = { pending := p } := by
  cases advance_iff.mp h with
  | opening _ first => exact ⟨_, first, rfl⟩
  | grow grows => cases grows
  | call calls => cases calls
  | enter enters => cases enters
  | elseIf branch | semicolon _ branch | closeBlock _ _ branch => cases branch

/-- Without a text, calls have no texts of their own. -/
theorem settle_nil (r : Reader) (next next' : Nat) : r.settle [] next = r.settle [] next' := by
  obtain ⟨frames, done, pending⟩ := r
  cases pending with
  | call name => simp only [settle, callOf, slice, List.drop_nil, List.take_nil]
  | _ => rfl

/-- At the end of a program a reader takes the tokens of another one as it would at the beginning,
behind the statements of the first one. -/
theorem reads_of_close? {ss : List Statement} {stop : Nat} {ls : List Lexeme}
    (hclose : r.close? [] stop = some ss) (h : Reads [] {} ls r') (hls : ls ≠ []) :
    Reads [] r ls (r'.behind ss.reverse) := by
  obtain ⟨hsettled, hframes, rfl⟩ := close?_eq_some_iff.mp hclose
  cases h with
  | nil => exact absurd rfl hls
  | @cons _ r₁ _ l ls hstep hreads =>
    obtain ⟨p, hp, rfl⟩ := opening_of_step? hstep
    refine .cons (advance_iff.mpr ?_) (reads_behind _ hreads)
    have hadvance : r.Advance [] l { r.settle [] l.start with pending := p } :=
      .opening hsettled hp
    simpa only [settle_nil r l.start stop, hframes, behind, behindFrames, behindDone,
      List.reverse_reverse, List.nil_append] using hadvance

end Seam

end Reader

theorem readTokens_eq_some_iff {ts : List Token} {ss : List Statement} :
    readTokens ts = some ss ↔
      ∃ r, Reader.Reads [] {} (ts.map fun t => ⟨t, 0, 0⟩) r ∧ r.close? [] 0 = some ss := by
  have hread : readTokens ts = some ss ↔
      Reader.readAll [] 0 true {} (ts.map fun t => ⟨t, 0, 0⟩) = .ok ss := by
    unfold readTokens
    cases Reader.readAll [] 0 true {} (ts.map fun t => ⟨t, 0, 0⟩) <;> simp [Except.toOption]
  rw [hread, Reader.readAll_eq_ok_iff, eq_self, true_and]

/-- The tokens of two programs are read one program after the other. -/
theorem readTokens_append {ts us : List Token} {ss ss' : List Statement}
    (h : readTokens ts = some ss) (h' : readTokens us = some ss') :
    readTokens (ts ++ us) = some (ss ++ ss') := by
  cases us with
  | nil =>
    obtain rfl : [] = ss' := Option.some.inj h'
    rwa [List.append_nil, List.append_nil]
  | cons u us =>
    obtain ⟨r, hreads, hclose⟩ := readTokens_eq_some_iff.mp h
    obtain ⟨r', hreads', hclose'⟩ := readTokens_eq_some_iff.mp h'
    refine readTokens_eq_some_iff.mpr ⟨r'.behind ss.reverse, ?_, Reader.close?_behind hclose'⟩
    rw [List.map_append]
    exact hreads.append (Reader.reads_of_close? hclose hreads' (List.cons_ne_nil _ _))

/-- The text of two programs with a line end between them is read as the one and then the other,
but for what trees note of the text. -/
theorem parseStatements_append_line {a b : String} {ss ts : List Statement}
    (ha : parseStatements a = .ok ss) (hb : parseStatements b = .ok ts) :
    ∃ us, parseStatements (a ++ "\n" ++ b) = .ok us ∧ bareBlock us = bareBlock (ss ++ ts) := by
  obtain ⟨tokens, htokens, -⟩ := exists_tokenized_of_parse ha
  obtain ⟨tokens', htokens', -⟩ := exists_tokenized_of_parse hb
  have hread : readTokens tokens = some (bareBlock ss) := by
    rw [← parseStatements_of_tokenized htokens, ha]
    rfl
  have hread' : readTokens tokens' = some (bareBlock ts) := by
    rw [← parseStatements_of_tokenized htokens', hb]
    rfl
  have htext : (a ++ "\n" ++ b).toList = a.toList ++ '\n' :: b.toList := by
    simp [String.toList_append]
  have hjoined : Tokenized (tokens ++ tokens') (a ++ "\n" ++ b).toList :=
    htext ▸ htokens.append_line htokens'
  obtain ⟨us, hus, hbare⟩ := exists_parse_of_readTokens hjoined (readTokens_append hread hread')
  exact ⟨us, hus, hbare.trans (bareBlock_append ss ts).symm⟩

/-! ### Commands one after the other -/

section Compile

variable {ss ts : List Statement}

theorem workOfBlock_append : workOfBlock (ss ++ ts) = workOfBlock ss + workOfBlock ts := by
  induction ss with
  | nil => exact (Nat.zero_add _).symm
  | cons s ss ih => rw [List.cons_append, workOfBlock, workOfBlock, ih, Nat.add_assoc]

theorem blockLegal_append : BlockLegal (ss ++ ts) ↔ BlockLegal ss ∧ BlockLegal ts := by
  induction ss with
  | nil => simp [BlockLegal]
  | cons s ss ih => simp [BlockLegal, ih, and_assoc]

/-- Statements compile one after the other, each from the meter that the ones before it leave. -/
theorem compileBlock_append_eq_ok_iff {m m' : Meter} {cs : List Command} :
    compileBlock (ss ++ ts) m = .ok (cs, m') ↔
      ∃ first next rest, compileBlock ss m = .ok (first, next) ∧
        compileBlock ts next = .ok (rest, m') ∧ cs = first ++ rest := by
  induction ss generalizing m cs with
  | nil => simp [compileBlock]
  | cons s ss ih =>
    simp only [List.cons_append, compileBlock_cons_eq_ok_iff, ih]
    constructor
    · rintro ⟨first, next, _, hfirst, ⟨middle, next', rest, hmiddle, hrest, rfl⟩, rfl⟩
      exact ⟨first ++ middle, next', rest, ⟨first, next, middle, hfirst, hmiddle, rfl⟩, hrest,
        (List.append_assoc _ _ _).symm⟩
    · rintro ⟨_, next', rest, ⟨first, next, middle, hfirst, hmiddle, rfl⟩, hrest, rfl⟩
      exact ⟨first, next, middle ++ rest, hfirst, ⟨middle, next', rest, hmiddle, hrest, rfl⟩,
        List.append_assoc _ _ _⟩

end Compile

/-! ### What is kept behind a fuller meter -/

mutual

theorem kept_congr (c : Command) {u v : Nat} (h : saturate u = saturate v) :
    c.kept u = c.kept v := by
  have hroom : u < counterLimit ↔ v < counterLimit := by
    unfold saturate at h
    omega
  cases c with
  | act a => rfl
  | loop count body => simp only [Command.kept, hroom, keptOf_congr body h]
  | branch negated thenDo elseDo =>
    simp only [Command.kept, hroom, keptOf_congr thenDo h, keptOf_congr elseDo h]

/-- What is kept depends on the work before only as far as the counter shows it. -/
theorem keptOf_congr (cs : List Command) {u v : Nat} (h : saturate u = saturate v) :
    keptOf u cs = keptOf v cs := by
  cases cs with
  | nil => rfl
  | cons c cs =>
    have hnext : saturate (u + c.work) = saturate (v + c.work) := by
      unfold saturate at *
      omega
    rw [keptOf, keptOf, kept_congr c h, keptOf_congr cs hnext]

end

theorem keptOf_append (cs ds : List Command) (u : Nat) :
    keptOf u (cs ++ ds) = keptOf u cs ++ keptOf (u + workOf cs) ds := by
  induction cs generalizing u with
  | nil => rfl
  | cons c cs ih =>
    simp only [List.cons_append, keptOf, workOf, ih, List.append_assoc, Nat.add_assoc]

/-- Behind more work, a block moves the meter if it would have moved it before and it is not full
by then. -/
theorem unmoved_later_iff {u v work : Nat} (hv : v ≤ counterLimit) :
    saturate (saturate (u + v) + work) - saturate (u + v) = 0 ↔
      saturate (v + work) - v = 0 ∨ ¬ u + v < counterLimit := by
  unfold saturate
  omega

/-- A block is kept if it moved the meter and the meter is not full by then. -/
theorem keptOf_of_moved {u : Nat} {c c' : Command} {unmoved : Prop} [Decidable unmoved]
    (hkept : c.kept u = if u < counterLimit then [c'] else []) :
    (if unmoved ∨ ¬ u < counterLimit then [] else [c']) =
      keptOf u (if unmoved then [] else [c]) := by
  by_cases hunmoved : unmoved
  · rw [if_pos (.inl hunmoved), if_pos hunmoved]
    rfl
  · rw [if_neg hunmoved, keptOf, hkept, keptOf, List.append_nil]
    simp only [hunmoved, false_or, ite_not]

mutual

theorem kept_of_later (s : Statement) {u : Nat} {m m' n n' : Meter} {cs cs' : List Command}
    (hm : m.Within) (hm' : m'.Within) (hused : m'.used = saturate (u + m.used))
    (h : s.compile m = .ok (cs, n)) (h' : s.compile m' = .ok (cs', n')) :
    cs' = keptOf (u + m.used) cs := by
  cases s with
  | call name argument text l =>
    obtain ⟨a, haction, -, -, rfl⟩ := compile_call_eq_ok_iff.mp h
    obtain ⟨a', haction', -, -, rfl⟩ := compile_call_eq_ok_iff.mp h'
    obtain rfl := Option.some.inj (haction.symm.trans haction')
    rfl
  | loop count body l =>
    obtain ⟨commands, inner, hbody, -, -, rfl⟩ := compile_loop_eq_ok_iff.mp h
    obtain ⟨commands', inner', hbody', -, -, rfl⟩ := compile_loop_eq_ok_iff.mp h'
    have hkept := keptOf_of_later body hm hm' hused hbody hbody'
    obtain ⟨-, -, rfl⟩ := (exists_compileBlock_iff body hm).mp ⟨commands, hbody⟩
    obtain ⟨-, -, rfl⟩ := (exists_compileBlock_iff body hm').mp ⟨commands', hbody'⟩
    simp only [Meter.after, hused, unmoved_later_iff hm.counts, hkept]
    exact keptOf_of_moved rfl
  | branch condition thenBlock elseBlock =>
    obtain ⟨-, thenDo, thenMeter, elseDo, elseMeter, hthen, helse, -, rfl⟩ :=
      compile_branch_eq_ok_iff.mp h
    obtain ⟨-, thenDo', thenMeter', elseDo', elseMeter', hthen', helse', -, rfl⟩ :=
      compile_branch_eq_ok_iff.mp h'
    have hthenKept := keptOf_of_later thenBlock hm hm' hused hthen hthen'
    have helseKept := keptOf_of_laterElse elseBlock hm hm' hused helse helse'
    obtain ⟨-, -, rfl⟩ := (exists_compileBlock_iff thenBlock hm).mp ⟨thenDo, hthen⟩
    obtain ⟨-, -, rfl⟩ := (exists_compileElse_iff elseBlock hm).mp ⟨elseDo, helse⟩
    obtain ⟨-, -, rfl⟩ := (exists_compileBlock_iff thenBlock hm').mp ⟨thenDo', hthen'⟩
    obtain ⟨-, -, rfl⟩ := (exists_compileElse_iff elseBlock hm').mp ⟨elseDo', helse'⟩
    simp only [Meter.after, hused, saturate_max, Nat.add_max_add_left,
      unmoved_later_iff hm.counts, hthenKept, helseKept]
    exact keptOf_of_moved rfl

theorem keptOf_of_laterElse (block? : Option (List Statement)) {u : Nat} {m m' n n' : Meter}
    {cs cs' : List Command} (hm : m.Within) (hm' : m'.Within)
    (hused : m'.used = saturate (u + m.used))
    (h : compileElse block? m = .ok (cs, n)) (h' : compileElse block? m' = .ok (cs', n')) :
    cs' = keptOf (u + m.used) cs := by
  cases block? with
  | none =>
    cases h
    cases h'
    rfl
  | some block => exact keptOf_of_later block hm hm' hused h h'

/-- Where some work has been charged before, compiling keeps less of a block: what is kept there of
the commands that it comes to by itself. -/
theorem keptOf_of_later (ss : List Statement) {u : Nat} {m m' n n' : Meter} {cs cs' : List Command}
    (hm : m.Within) (hm' : m'.Within) (hused : m'.used = saturate (u + m.used))
    (h : compileBlock ss m = .ok (cs, n)) (h' : compileBlock ss m' = .ok (cs', n')) :
    cs' = keptOf (u + m.used) cs := by
  cases ss with
  | nil =>
    cases h
    cases h'
    rfl
  | cons s ss =>
    obtain ⟨first, next, rest, hfirst, hrest, rfl⟩ := compileBlock_cons_eq_ok_iff.mp h
    obtain ⟨first', next', rest', hfirst', hrest', rfl⟩ := compileBlock_cons_eq_ok_iff.mp h'
    have hkept := kept_of_later s hm hm' hused hfirst hfirst'
    have hmetered := metered_of_compile s hm.counts hfirst
    obtain ⟨-, hafford, rfl⟩ := (exists_compile_iff s hm).mp ⟨first, hfirst⟩
    obtain ⟨-, hafford', rfl⟩ := (exists_compile_iff s hm').mp ⟨first', hfirst'⟩
    have hnext : (m'.after s.work).used = saturate (u + (m.after s.work).used) := by
      rw [used_after hused, Meter.after, saturate_add_saturate, Nat.add_assoc]
    have hrestKept := keptOf_of_later ss hafford.within hafford'.within hnext hrest hrest'
    -- the meter shows the work of the first commands, though some of the tree may be left out
    have hsame : saturate (u + (m.after s.work).used) = saturate (u + m.used + workOf first) := by
      rw [hmetered.used, saturate_add_saturate, Nat.add_assoc]
    rw [keptOf_append, hkept, hrestKept, keptOf_congr rest hsame]

end

/-! ### Two programs in one text -/

section Programs

variable {ss ts : List Statement} {cs ds : List Command} {budget : Nat}

/-- If the budget allows both, the commands come one after the other, and of the second ones what is
kept behind the first ones. -/
theorem compile_append (h : compile ss budget = .ok cs) (h' : compile ts budget = .ok ds)
    (hbudget : saturate (costOf cs + costOf ds) ≤ budget) :
    compile (ss ++ ts) budget = .ok (cs ++ keptOf (workOf cs) ds) := by
  obtain ⟨hlegal, -⟩ := (compile_accepts_iff ss budget).1.mp ⟨cs, h⟩
  obtain ⟨hlegal', -⟩ := (compile_accepts_iff ts budget).1.mp ⟨ds, h'⟩
  have hwork : min (workOfBlock (ss ++ ts)) counterLimit ≤ budget := by
    rw [costOf_of_compile h, costOf_of_compile h'] at hbudget
    rw [workOfBlock_append]
    unfold saturate at hbudget
    omega
  obtain ⟨es, hjoined⟩ := (compile_accepts_iff (ss ++ ts) budget).1.mpr
    ⟨blockLegal_append.mpr ⟨hlegal, hlegal'⟩, hwork⟩
  obtain ⟨m', hblock⟩ := compile_eq_ok_iff.mp hjoined
  obtain ⟨first, next, rest, hfirst, hrest, rfl⟩ := compileBlock_append_eq_ok_iff.mp hblock
  obtain ⟨m₁, hss⟩ := compile_eq_ok_iff.mp h
  obtain ⟨m₂, hts⟩ := compile_eq_ok_iff.mp h'
  obtain ⟨rfl, rfl⟩ := Prod.mk.inj (Except.ok.inj (hss.symm.trans hfirst))
  have hm : ({ used := 0, budget } : Meter).Within := ⟨Nat.zero_le _, Nat.zero_le _⟩
  have hmetered := metered_of_compileBlock ss hm.counts hss
  have hused : m₁.used = saturate (workOf cs + 0) := by
    rw [hmetered.used, Nat.zero_add, Nat.add_zero]
  obtain ⟨-, hafford, rfl⟩ := (exists_compileBlock_iff ss hm).mp ⟨cs, hss⟩
  obtain rfl : rest = keptOf (workOf cs) ds := keptOf_of_later ts hm hafford.within hused hts hrest
  exact hjoined

/-- Statements whose names and numbers are allowed are refused for one reason only. -/
theorem exists_overBudget_of_legal (hlegal : BlockLegal ss)
    (hover : budget < saturate (workOfBlock ss)) :
    ∃ required, budget < required ∧ compile ss budget = .error (.overBudget required budget) := by
  -- what a budget as large as the counter goes would accept
  have haccepted : ∃ cs, compile ss counterLimit = .ok cs :=
    (compile_accepts_iff ss counterLimit).1.mpr ⟨hlegal, Nat.min_le_right _ _⟩
  have hle : budget ≤ counterLimit := Nat.le_trans (Nat.le_of_lt hover) (saturate_le _)
  cases settled_compileBlock ss 0 budget with
  | overBudget required hlt h =>
    refine ⟨required, hlt, ?_⟩
    rw [compile, h budget (Nat.le_refl _) hlt]
    rfl
  | refused e he h =>
    obtain ⟨cs, hcs⟩ := haccepted
    rw [compile, h counterLimit hle] at hcs
    cases hcs
  | accepted cs used h =>
    have hcs : compile ss budget = .ok cs := by
      rw [compile, h budget (Nat.le_refl _)]
      rfl
    obtain ⟨-, hwithin⟩ := (compile_accepts_iff ss budget).1.mp ⟨cs, hcs⟩
    exact absurd hover (Nat.not_lt.mpr hwithin)

section Texts

variable {a b : String}

/-- The text of two programs with a line end between them compiles as the statements of the one and
then those of the other do. -/
theorem sameKind_append_line (ha : parseStatements a = .ok ss) (hb : parseStatements b = .ok ts)
    (budget : Nat) : SameKind (parse (a ++ "\n" ++ b) budget) (compile (ss ++ ts) budget) := by
  obtain ⟨us, hus, hbare⟩ := parseStatements_append_line ha hb
  have hjoined : SameKind (compile (ss ++ ts) budget) (compile (bareBlock (ss ++ ts)) budget) :=
    (sameKind_compileBlock (ss ++ ts) _).bind fun r => .refl _
  rw [← hbare] at hjoined
  exact (sameKind_parse hus budget).trans hjoined.symm

theorem parse_append_line_of_le (ha : parse a budget = .ok cs) (hb : parse b budget = .ok ds)
    (hcost : saturate (costOf cs + costOf ds) ≤ budget) :
    parse (a ++ "\n" ++ b) budget = .ok (cs ++ keptOf (workOf cs) ds) := by
  obtain ⟨ss, hss, hcs⟩ := parse_eq_ok_iff.mp ha
  obtain ⟨ts, hts, hds⟩ := parse_eq_ok_iff.mp hb
  have hsame := sameKind_append_line hss hts budget
  rw [compile_append hcs hds hcost] at hsame
  exact hsame.eq_ok

theorem parse_append_line_of_lt (ha : parse a budget = .ok cs) (hb : parse b budget = .ok ds)
    (hcost : budget < saturate (costOf cs + costOf ds)) :
    ∃ required, budget < required ∧
      parse (a ++ "\n" ++ b) budget = .error (.overBudget required budget) := by
  obtain ⟨ss, hss, hcs⟩ := parse_eq_ok_iff.mp ha
  obtain ⟨ts, hts, hds⟩ := parse_eq_ok_iff.mp hb
  obtain ⟨hlegal, -⟩ := (compile_accepts_iff ss budget).1.mp ⟨cs, hcs⟩
  obtain ⟨hlegal', -⟩ := (compile_accepts_iff ts budget).1.mp ⟨ds, hds⟩
  have hover : budget < saturate (workOfBlock (ss ++ ts)) := by
    rw [costOf_of_compile hcs, costOf_of_compile hds] at hcost
    rw [workOfBlock_append]
    unfold saturate at *
    omega
  obtain ⟨required, hlt, hrefused⟩ :=
    exists_overBudget_of_legal (blockLegal_append.mpr ⟨hlegal, hlegal'⟩) hover
  have hsame := sameKind_append_line hss hts budget
  rw [hrefused] at hsame
  exact ⟨required, hlt, hsame.eq_overBudget⟩

/-- The second commands are all kept if the counter can tell the work of both. -/
theorem keptOf_eq_self_of_parse (hb : parse b budget = .ok ds)
    (hwork : workOf cs + workOf ds ≤ counterLimit) : keptOf (workOf cs) ds = ds :=
  keptOf_eq_self (admissible_iff.mp (admissible_of_parse hb)).1 hwork

end Texts

end Programs

/-- A program that fills the counter. -/
def overfullStart : String :=
  "if onFire { repeat 50 { repeat 50 { repeat 50 { repeat 50 { repeat 50 { forward 50 } } } } } }"

/-- Behind a program that fills the counter, a loop is left out that is kept alone. -/
theorem overfull_programs_lose_loop {budget : Nat} (hbudget : counterLimit ≤ budget) :
    ∃ cs ds, parse overfullStart budget = .ok cs ∧ parse "repeat 1 { collect }" budget = .ok ds ∧
      saturate (costOf cs + costOf ds) ≤ budget ∧
      parse (overfullStart ++ "\n" ++ "repeat 1 { collect }") budget ≠ .ok (cs ++ ds) := by
  -- a budget beyond the counter accepts what its limit accepts
  have hsame : ∀ {source : String} {cs : List Command}, parse source counterLimit = .ok cs →
      parse source budget = .ok cs := by
    intro source cs h
    rw [← h]
    refine (parse_under_budgets source counterLimit).1 budget hbudget fun required limit he => ?_
    rw [h] at he
    cases he
  have hstart : parse overfullStart counterLimit = .ok [.branch false (overfullLoops 5) []] := by
    decide +kernel
  have hloop : parse "repeat 1 { collect }" counterLimit = .ok [.loop 1 [.act .collect]] := by
    decide +kernel
  have hjoined : parse (overfullStart ++ "\n" ++ "repeat 1 { collect }") counterLimit =
      .ok [.branch false (overfullLoops 5) []] := by
    decide +kernel
  refine ⟨_, _, hsame hstart, hsame hloop, Nat.le_trans (saturate_le _) hbudget, ?_⟩
  rw [hsame hjoined]
  decide

/-- Two programs with a line end between them are read as one program with the statements of both.
Under a budget that accepts each of them, the one program is too dear if both together are. If not,
its commands are those of the first program and then those of the second one, except that loops and
branches of the second one are left out where the counter is full, which it is not if it can tell
the work of both. So the commands are just those of both under the budgets below the limit of the
counter. -/
theorem parse_append_line (budget : Nat) :
    (∀ a b ss ts, parseStatements a = .ok ss → parseStatements b = .ok ts →
        ∃ us, parseStatements (a ++ "\n" ++ b) = .ok us ∧
          bareBlock us = bareBlock (ss ++ ts)) ∧
      (∀ a b cs ds, parse a budget = .ok cs → parse b budget = .ok ds →
        (saturate (costOf cs + costOf ds) ≤ budget →
            parse (a ++ "\n" ++ b) budget = .ok (cs ++ keptOf (workOf cs) ds) ∧
              (workOf cs + workOf ds ≤ counterLimit → keptOf (workOf cs) ds = ds)) ∧
          (budget < saturate (costOf cs + costOf ds) →
            ∃ required, budget < required ∧
              parse (a ++ "\n" ++ b) budget = .error (.overBudget required budget))) ∧
      ((∀ a b cs ds, parse a budget = .ok cs → parse b budget = .ok ds →
          saturate (costOf cs + costOf ds) ≤ budget →
            parse (a ++ "\n" ++ b) budget = .ok (cs ++ ds)) ↔
        budget < counterLimit) := by
  refine ⟨fun a b ss ts => parseStatements_append_line, fun a b cs ds ha hb => ⟨fun hcost => ?_,
    parse_append_line_of_lt ha hb⟩, fun hall => ?_, fun hlimit a b cs ds ha hb hcost => ?_⟩
  · exact ⟨parse_append_line_of_le ha hb hcost, keptOf_eq_self_of_parse hb⟩
  · refine Nat.lt_of_not_le fun hbudget => ?_
    obtain ⟨cs, ds, ha, hb, hcost, hne⟩ := overfull_programs_lose_loop hbudget
    exact hne (hall _ _ cs ds ha hb hcost)
  · -- a cost below the limit is the work itself
    have hwork : workOf cs + workOf ds ≤ counterLimit := by
      rw [costOf_eq, costOf_eq] at hcost
      unfold saturate at hcost
      omega
    rw [parse_append_line_of_le ha hb hcost, keptOf_eq_self_of_parse hb hwork]

/-- A program that ends within a comment and one that begins with a branch: a budget of four is
enough for both, one of three only for each of them. -/
theorem parse_append_line_in_comment :
    let a := "forward 2; left // if onFire"
    let b := "if onFire \x7b cover \x7d # else"
    let cs : List Command := [.act (.move .forward 2), .act .turnLeft]
    let ds : List Command := [.branch false [.act .cover] []]
    (∃ ss ts us, parseStatements a = .ok ss ∧ parseStatements b = .ok ts ∧
        parseStatements (a ++ "\n" ++ b) = .ok us ∧ bareBlock us = bareBlock (ss ++ ts)) ∧
      (parse a 4 = .ok cs ∧ parse b 4 = .ok ds ∧ saturate (costOf cs + costOf ds) ≤ 4 ∧
        workOf cs + workOf ds ≤ counterLimit ∧ 4 < counterLimit ∧
        parse (a ++ "\n" ++ b) 4 = .ok (cs ++ ds)) ∧
      parse a 3 = .ok cs ∧ parse b 3 = .ok ds ∧ 3 < saturate (costOf cs + costOf ds) ∧
        ∃ required, 3 < required ∧
          parse (a ++ "\n" ++ b) 3 = .error (.overBudget required 3) := by
  intro a b cs ds
  have ha : parse a 4 = .ok cs := by decide +kernel
  have hb : parse b 4 = .ok ds := by decide +kernel
  have ha' : parse a 3 = .ok cs := by decide +kernel
  have hb' : parse b 3 = .ok ds := by decide +kernel
  have hcost : saturate (costOf cs + costOf ds) ≤ 4 := by decide
  have hover : 3 < saturate (costOf cs + costOf ds) := by decide
  have hwork : workOf cs + workOf ds ≤ counterLimit := by decide
  have hlimit : 4 < counterLimit := by decide
  obtain ⟨ss, hss, -⟩ := parse_eq_ok_iff.mp ha
  obtain ⟨ts, hts, -⟩ := parse_eq_ok_iff.mp hb
  obtain ⟨us, hus, hbare⟩ := (parse_append_line 4).1 a b ss ts hss hts
  obtain ⟨hparse, hkept⟩ := ((parse_append_line 4).2.1 a b cs ds ha hb).1 hcost
  rw [hkept hwork] at hparse
  exact ⟨⟨ss, ts, us, hss, hts, hus, hbare⟩, ⟨ha, hb, hcost, hwork, hlimit, hparse⟩, ha', hb',
    hover, ((parse_append_line 3).2.1 a b cs ds ha' hb').2 hover⟩

/-- Under the largest budget the commands of two programs are not just those of both. -/
theorem not_parse_append_line_at_limit :
    ¬ ∀ a b budget cs ds, budget ≤ counterLimit → parse a budget = .ok cs →
      parse b budget = .ok ds → saturate (costOf cs + costOf ds) ≤ budget →
        parse (a ++ "\n" ++ b) budget = .ok (cs ++ ds) := by
  intro hall
  obtain ⟨cs, ds, ha, hb, hcost, hne⟩ := overfull_programs_lose_loop (Nat.le_refl counterLimit)
  exact hne (hall _ _ counterLimit cs ds (Nat.le_refl _) ha hb hcost)

end RobotPuzzle
