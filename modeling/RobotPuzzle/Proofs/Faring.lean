import RobotPuzzle.Proofs.Reading
import RobotPuzzle.Proofs.Trying

/-!
# Trying rules beside a reader

A reader never goes back, while the rules of the grammar are tried one after the other, many of them
in vain. On the same tokens the two get on together or fail together, and where both fail the reader
blames the furthest rule that failed. Only what may be left out of a pattern makes a difference: if
it fails after its first token, the pattern has worked without it, and the reader has failed.

## Main definitions

* `Scan.read` — reading on from a state of a reader
* `Reader.Fares` — how trying a pattern fares beside a reader
* `Reader.Returns` — the blocks that a complete statement leaves open
* `Reader.Ended`, `Reader.Ready` — a reader behind a statement, without its semicolons and with them

## Main results

* `Reader.read_of_unexpected` — a statement that lacks something does not go on with every token
* `Reader.Fares.seq`, `Reader.Fares.first`, `Reader.Fares.second` — patterns made of others fare
  like these
* `Reader.Ended.exists_ready` — a reader takes the semicolons behind a statement
* `Reader.Ready.read_eq_error` — between statements the next token is blamed if it begins nothing
-/

namespace RobotPuzzle

/-- Reading on from a state of a reader, with the tokens that are left. -/
def Scan.read (s : Scan) (text : List Char) (r : Reader) (ls : List Lexeme) :
    Except Nat (List Statement) :=
  Reader.readAll text s.stop s.complete r ls

namespace Reader

variable {s : Scan} {text : List Char} {r r' : Reader} {frames : List Frame}
  {done : List Statement} {l : Lexeme} {ls ms : List Lexeme}

/-! ### Readers that get no further -/

theorem read_cons (h : r.step? text l = some r') :
    s.read text r (l :: ls) = s.read text r' ls := by
  rw [Scan.read, readAll, h]
  rfl

theorem read_of_stuck (hstep : ∀ l ∈ ls.head?, r.step? text l = none)
    (hclose : ls = [] → s.complete = true → r.close? text s.stop = none) :
    s.read text r ls = .error (r.pending.blame (s.startOf ls)) := by
  cases ls with
  | nil =>
    have hstop : (if s.complete then r.close? text s.stop else none) = none := by
      cases hcomplete : s.complete with
      | false => rfl
      | true => exact hclose rfl hcomplete
    rw [Scan.read, readAll, hstop]
    rfl
  | cons l ls =>
    rw [Scan.read, readAll, hstep l rfl]
    rfl

/-- Within a statement that lacks something, a token that does not go on with it is blamed. -/
theorem read_of_unexpected (hpending : r.pending.settled = false)
    (h : ∀ l ∈ ls.head?, r.pending.expects l.token = false) :
    s.read text r ls = .error (r.pending.blame (s.startOf ls)) := by
  refine read_of_stuck (fun l hl => ?_) fun _ _ => ?_
  · rw [step?, continue?_eq_none_iff.mpr (h l hl), hpending]
    rfl
  · rw [close?, hpending]
    rfl

/-! ### Trying beside a reader -/

/-- Trying a pattern beside a reader. `Stays` tells where the pattern may end although the reader
has failed, and `Post` what holds where both go on. -/
inductive Fares (s : Scan) (text : List Char) (e : Pattern) (Stays : List Lexeme → Prop)
    (Post : Reader → List Lexeme → Prop) (r : Reader) (ls : List Lexeme) : Prop
  /-- Both get on to the same token. -/
  | goes {ms : List Lexeme} {fs : List Nat} {r' : Reader} (tries : Tries s e ls (some ms) fs)
    (same : s.read text r ls = s.read text r' ms) (post : Post r' ms)
    (le : ∀ f ∈ fs, f ≤ s.startOf ms)
  /-- The rest of the pattern may be left out, but the reader has begun with it. -/
  | stays {ms : List Lexeme} {fs : List Nat} {b : Nat} (tries : Tries s e ls (some ms) fs)
    (stays : Stays ms) (error : s.read text r ls = .error b) (furthest : Furthest fs b)
    (le : s.startOf ms ≤ b)
  /-- Both fail. -/
  | fails {fs : List Nat} {b : Nat} (tries : Tries s e ls none fs)
    (error : s.read text r ls = .error b) (furthest : Furthest fs b)

/-- Nothing is left out that the reader has begun with. -/
abbrev Never (_ : List Lexeme) : Prop := False

namespace Fares

variable {a b : Pattern} {u : Rule} {Stays Stays' : List Lexeme → Prop}
  {Post Post' : Reader → List Lexeme → Prop}

theorem imp (h : Fares s text a Stays Post r ls) (hstays : ∀ ms, Stays ms → Stays' ms)
    (hpost : ∀ r' ms, Post r' ms → Post' r' ms) : Fares s text a Stays' Post' r ls := by
  cases h with
  | goes tries same post le => exact .goes tries same (hpost _ _ post) le
  | stays tries stays error furthest le => exact .stays tries (hstays _ stays) error furthest le
  | fails tries error furthest => exact .fails tries error furthest

/-- One token that the reader takes. -/
theorem one (htries : Tries s a (l :: ls) (some ls) []) (hstep : r.step? text l = some r')
    (hpost : Post r' ls) : Fares s text a Stays Post r (l :: ls) :=
  .goes htries (read_cons hstep) hpost fun _ => nofun

/-- One token that the reader takes, and another pattern behind it. -/
theorem cons (htries : Tries s a (l :: ls) (some ls) []) (hstep : r.step? text l = some r')
    (h : Fares s text b Stays Post r' ls) : Fares s text (.seq a b) Stays Post r (l :: ls) := by
  cases h with
  | goes tries same post le =>
    exact .goes (.seq htries tries) ((read_cons hstep).trans same) post le
  | stays tries stays error furthest le =>
    exact .stays (.seq htries tries) stays ((read_cons hstep).trans error) furthest le
  | fails tries error furthest =>
    exact .fails (.seq htries tries) ((read_cons hstep).trans error) furthest

/-- A rule that fails at once, where the reader blames the first token. -/
theorem of_misses (h : Misses s u.body ls) (herror : s.read text r ls = .error (s.startOf ls)) :
    Fares s text (.rule u) Stays Post r ls := by
  obtain ⟨fs, htries, hfurthest⟩ := h.furthest u
  exact .fails htries herror hfurthest

theorem of_misses_seq (h : Misses s u.body ls)
    (herror : s.read text r ls = .error (s.startOf ls)) :
    Fares s text (.seq (.rule u) b) Stays Post r ls := by
  obtain ⟨fs, htries, hfurthest⟩ := h.furthest u
  exact .fails (.failedSeq htries) herror hfurthest

theorem absent (h : Misses s a ls) (hpost : Post r ls) :
    Fares s text (.optional a) Stays Post r ls := by
  obtain ⟨fs, htries, hle⟩ := h
  exact .goes (.absent htries) rfl hpost hle

/-- What is left out because it fails may have been begun by the reader. -/
theorem optional (h : Fares s text a Stays Post r ls) (hstays : Stays ls)
    (horder : s.Ordered ls) : Fares s text (.optional a) Stays Post r ls := by
  cases h with
  | goes tries same post le => exact .goes (.present tries) same post le
  | stays tries stays error furthest le => exact .stays (.present tries) stays error furthest le
  -- the pattern takes nothing back, but works without what has failed
  | fails tries error furthest =>
    exact .stays (.absent tries) hstays error furthest (tries.start_le horder _ furthest.1)

theorem rule (h : Fares s text u.body Stays Post r ls) (horder : s.Ordered ls) :
    Fares s text (.rule u) Stays Post r ls := by
  cases h with
  | goes tries same post le => exact .goes (.rule tries) same post le
  | stays tries stays error furthest le => exact .stays (.rule tries) stays error furthest le
  | fails tries error furthest =>
    exact .fails (.failedRule tries) error
      (furthest.cons (tries.start_le horder _ furthest.1))

theorem seq (h : Fares s text a Never Post r ls)
    (hnext : ∀ r' ms, Post r' ms → ms <:+ ls → s.Ordered ms → Fares s text b Stays Post' r' ms)
    (horder : s.Ordered ls) : Fares s text (.seq a b) Stays Post' r ls := by
  cases h with
  | @goes ms fs r' tries same post le =>
    obtain ⟨horder', -⟩ := horder.of_suffix (tries.suffix _ rfl)
    -- what failed on the way failed no further down than where the second pattern begins
    cases hnext r' ms post (tries.suffix _ rfl) horder' with
    | goes tries' same' post' le' =>
      have hsuffix := (horder'.of_suffix (tries'.suffix _ rfl)).2
      exact .goes (.seq tries tries') (same.trans same') post'
        (List.forall_mem_append.mpr ⟨fun f hf => (le f hf).trans hsuffix, le'⟩)
    | stays tries' stays error furthest le' =>
      have hstart := tries'.start_le horder' _ furthest.1
      exact .stays (.seq tries tries') stays (same.trans error)
        (.append_right (fun f hf => (le f hf).trans hstart) furthest) le'
    | fails tries' error furthest =>
      have hstart := tries'.start_le horder' _ furthest.1
      exact .fails (.seq tries tries') (same.trans error)
        (.append_right (fun f hf => (le f hf).trans hstart) furthest)
  | stays _ stays => exact stays.elim
  | fails tries error furthest => exact .fails (.failedSeq tries) error furthest

/-- The second pattern is not tried, or fails at once. -/
theorem first (h : Fares s text a Stays Post r ls) (hmisses : Misses s b ls)
    (horder : s.Ordered ls) : Fares s text (.choice a b) Stays Post r ls := by
  cases h with
  | goes tries same post le => exact .goes (.first tries) same post le
  | stays tries stays error furthest le => exact .stays (.first tries) stays error furthest le
  | fails tries error furthest =>
    obtain ⟨gs, htries, hgs⟩ := hmisses
    have hstart := tries.start_le horder _ furthest.1
    exact .fails (.second tries htries) error
      (furthest.append_left fun g hg => (hgs g hg).trans hstart)

/-- The first pattern fails at once. -/
theorem second (hmisses : Misses s a ls) (h : Fares s text b Stays Post r ls)
    (horder : s.Ordered ls) : Fares s text (.choice a b) Stays Post r ls := by
  obtain ⟨gs, htries, hgs⟩ := hmisses
  cases h with
  | goes tries same post le =>
    have hsuffix := (horder.of_suffix (tries.suffix _ rfl)).2
    exact .goes (.second htries tries) same post
      (List.forall_mem_append.mpr ⟨fun g hg => (hgs g hg).trans hsuffix, le⟩)
  | stays tries stays error furthest le =>
    have hstart := tries.start_le horder _ furthest.1
    exact .stays (.second htries tries) stays error
      (.append_right (fun g hg => (hgs g hg).trans hstart) furthest) le
  | fails tries error furthest =>
    have hstart := tries.start_le horder _ furthest.1
    exact .fails (.second htries tries) error
      (.append_right (fun g hg => (hgs g hg).trans hstart) furthest)

end Fares

/-! ### Between statements -/

/-- A statement that is completed in the blocks `inner` leaves the blocks `frames` open. -/
def Returns (inner frames : List Frame) : Prop :=
  ∀ s done, ∃ done', complete s inner done = ⟨frames, done', .separator⟩

theorem returns_of_braced (h : Braced frames) : Returns frames frames :=
  fun s done => ⟨_, complete_of_braced h s done⟩

theorem Returns.elseIf {inner : List Frame} (h : Returns inner frames) (c : Condition)
    (ss before : List Statement) : Returns (.elseIf c ss before :: inner) frames :=
  fun s _ => h (.branch c ss (some [s])) before

/-- A statement lacks nothing, and the next token does not belong to it. -/
structure Ended (text : List Char) (frames : List Frame) (r : Reader) (ls : List Lexeme) :
    Prop where
  settled : r.pending.settled = true
  settle_eq : ∀ next, ∃ done, r.settle text next = ⟨frames, done, .separator⟩
  unexpected : ∀ l ∈ ls.head?, r.pending.expects l.token = false

/-- The next token begins a statement, ends the block or is a mistake. -/
structure Ready (text : List Char) (frames : List Frame) (r : Reader) (ls : List Lexeme) :
    Prop where
  settled : r.pending.settled = true
  frames_eq : ∀ next, (r.settle text next).frames = frames
  quiet : ∀ l ∈ ls.head?, opening? l = none → l.token ≠ .closeBrace → r.step? text l = none

theorem Returns.ended {inner : List Frame} (h : Returns inner frames) (s : Statement)
    (done : List Statement) (ls : List Lexeme) : Ended text frames (complete s inner done) ls := by
  obtain ⟨done', heq⟩ := h s done
  rw [heq]
  exact ⟨rfl, fun _ => ⟨done', rfl⟩, fun _ _ => rfl⟩

theorem step?_eq_none (hunexpected : r.pending.expects l.token = false)
    (hopening : opening? l = none) (hbrace : l.token ≠ .closeBrace)
    (hsemicolon : l.token = .semicolon → (r.settle text l.start).pending ≠ .separator) :
    r.step? text l = none := by
  refine Option.eq_none_iff_forall_ne_some.mpr fun r' h => ?_
  rcases step?_eq_some_iff.mp h with hcontinue | ⟨-, hbegin⟩
  · rw [continue?_eq_none_iff.mpr hunexpected] at hcontinue
    cases hcontinue
  · obtain ⟨p, hp, -⟩ | ⟨hmark, hseparator, -⟩ | ⟨hmark, -⟩ := begin?_eq_some_iff.mp hbegin
    · rw [hopening] at hp
      cases hp
    · exact hsemicolon hmark hseparator
    · exact hbrace hmark

theorem Ended.ready (h : Ended text frames r ls) (hlacks : Lacks .semicolon ls) :
    Ready text frames r ls where
  settled := h.settled
  frames_eq next := by
    obtain ⟨done, heq⟩ := h.settle_eq next
    rw [heq]
  quiet l hl hopening hbrace :=
    step?_eq_none (h.unexpected l hl) hopening hbrace fun hmark => absurd hmark (hlacks l hl)

theorem ready_opened (text : List Char) (frames : List Frame) (ls : List Lexeme) :
    Ready text frames ⟨frames, [], .nothing⟩ ls where
  settled := rfl
  frames_eq _ := rfl
  quiet _ _ hopening hbrace := step?_eq_none rfl hopening hbrace fun _ => nofun

/-- The semicolons behind a statement. -/
theorem Ended.exists_ready (h : Ended text frames r ls) (s : Scan) :
    ∃ r' ms, Tries s (.many (.mark .semicolon)) ls (some ms) [] ∧
      s.read text r ls = s.read text r' ms ∧ Ready text frames r' ms := by
  -- a semicolon completes the statement, and behind it all is as it was
  induction ls generalizing r with
  | nil => exact ⟨r, [], .enough (.noToken fun _ => nofun), rfl, h.ready fun _ => nofun⟩
  | cons l ls ih =>
    rcases lacks_or_eq_cons .semicolon (l :: ls) with hlacks | ⟨start, stop, ms, heq⟩
    · exact ⟨r, l :: ls, .enough hlacks.tries, rfl, h.ready hlacks⟩
    · obtain ⟨rfl, rfl⟩ := List.cons.inj heq
      obtain ⟨done, hsettle⟩ := h.settle_eq start
      have hstep : r.step? text ⟨.semicolon, start, stop⟩ = some ⟨frames, done, .separator⟩ := by
        rw [← hsettle]
        exact advance_iff.mpr (.semicolon h.settled (congrArg pending hsettle) rfl)
      obtain ⟨r', ms, htries, hsame, hready⟩ := ih (r := ⟨frames, done, .separator⟩)
        ⟨rfl, fun _ => ⟨done, rfl⟩, fun _ _ => rfl⟩
      exact ⟨r', ms, .more (.token rfl) htries, (read_cons hstep).trans hsame, hready⟩

theorem Ready.step?_closeBrace (h : Ready text frames r ls) (start stop : Nat) :
    r.step? text ⟨.closeBrace, start, stop⟩ = (r.settle text start).closeBlock? text := by
  have hcontinue : r.continue? text ⟨.closeBrace, start, stop⟩ = none := by
    obtain ⟨frames', done, pending⟩ := r
    have hsettled := h.settled
    cases pending with
    | nothing | separator | call | thenDone => rfl
    | _ => cases hsettled
  -- so the statement is completed first, and the brace closes the block around it
  rw [step?, hcontinue]
  dsimp only
  rw [if_pos h.settled]
  cases hpending : (r.settle text start).pending <;> rw [begin?, hpending]

/-- Between statements, a token that begins nothing is blamed, and so is the end of the text inside
a block. -/
theorem Ready.read_eq_error (h : Ready text frames r ls)
    (hhead : ∀ l ∈ ls.head?, opening? l = none ∧ (l.token = .closeBrace → frames = []))
    (hclose : ls = [] → s.complete = true → frames ≠ []) :
    s.read text r ls = .error (s.startOf ls) := by
  have hblame : r.pending.blame (s.startOf ls) = s.startOf ls := by
    have hsettled := h.settled
    cases hpending : r.pending with
    | nothing | separator | call | thenDone => rfl
    | _ =>
      rw [hpending] at hsettled
      cases hsettled
  rw [← hblame]
  refine read_of_stuck (fun l hl => ?_) fun hnil hcomplete => ?_
  · obtain ⟨hopening, hframes⟩ := hhead l hl
    by_cases hbrace : l.token = .closeBrace
    · -- outside all blocks there is none that could be closed
      obtain ⟨token, start, stop⟩ := l
      cases hbrace
      rw [h.step?_closeBrace, closeBlock?, h.frames_eq, hframes rfl]
    · exact h.quiet l hl hopening hbrace
  · refine Option.eq_none_iff_forall_ne_some.mpr fun ss hss => ?_
    obtain ⟨-, hframes, -⟩ := close?_eq_some_iff.mp hss
    exact hclose hnil hcomplete ((h.frames_eq _).symm.trans hframes)

end Reader

end RobotPuzzle
