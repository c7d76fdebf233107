import RobotPuzzle.Proofs.Independence

/-!
# Tickets

A ticket names the run that it was handed out for, for good. Runs are numbered as they are launched,
no number is given twice, and the active run is always the one that was launched last. So whoever
holds the ticket of a run that has ended can neither step another run with it nor cancel one: the
ticket goes stale, and a stale ticket never becomes good again.

## Main definitions

* `Session.HappensAt` — where in a sequence of operations something happens
* `Session.AcceptedAt`, `Session.LatestAt` — where runs are launched
* `Session.HandsOut`, `Session.ActiveAfter` — the run that a ticket was handed out for, and the
  one that is active
* `Session.Stale` — the ticket of a run that has ended
* `Backdrop.told` — what a cancellation changes for other runs

## Main results

* `Session.HandsOut.ticket_eq` — a ticket is the number of runs launched before its own
* `Session.Stale.apply` — a ticket that is stale stays so
* `Session.Stale.operation` — no operation notices that a stale ticket was cancelled
* `ticket_for_its_run_only` — what tickets can do and what they cannot
-/

namespace RobotPuzzle

namespace Session

variable {s : Session} {op : Operation} {ops : List Operation} {p q i j : Nat} {t u : Ticket}

/-! ### Where runs are launched -/

/-- At a position, operations do something when its turn comes. -/
def HappensAt (s : Session) (P : Session → Operation → Prop) (ops : List Operation) (p : Nat) :
    Prop :=
  ∃ op, ops[p]? = some op ∧ P (s.after (ops.take p)) op

/-- The operation at a position starts a program that is accepted when its turn comes. -/
def AcceptedAt (s : Session) (ops : List Operation) (p : Nat) : Prop :=
  ∃ op, ops[p]? = some op ∧ (s.after (ops.take p)).Accepts op

/-- The last run that some operations launch is launched at a position. -/
structure LatestAt (s : Session) (ops : List Operation) (p : Nat) : Prop where
  accepted : s.AcceptedAt ops p
  latest : ∀ q, p < q → ¬ s.AcceptedAt ops q

/-- Asked for a ticket after some operations, a session hands one out for the run that was launched
at a position. -/
structure HandsOut (s : Session) (ops : List Operation) (t : Ticket) (p : Nat) : Prop
    extends LatestAt s ops p where
  ticket : (s.after ops).ticket? = some t

/-- The run that was launched at a position is active after some operations. -/
structure ActiveAfter (s : Session) (ops : List Operation) (p : Nat) : Prop
    extends LatestAt s ops p where
  running : ∃ run, (s.after ops).run? = some run

section HappensAt

variable {P : Session → Operation → Prop}

@[simp] theorem not_happensAt_nil : ¬ s.HappensAt P [] p := by
  rintro ⟨op, hop, -⟩
  cases hop

@[simp] theorem happensAt_zero : s.HappensAt P (op :: ops) 0 ↔ P s op := by
  constructor
  · rintro ⟨_, ⟨⟩, hop⟩
    exact hop
  · exact fun hop => ⟨op, rfl, hop⟩

theorem HappensAt.lt_length (h : s.HappensAt P ops p) : p < ops.length := by
  obtain ⟨op, hop, -⟩ := h
  exact (List.getElem?_eq_some_iff.mp hop).1

end HappensAt

-- being accepted is one of the things that can happen
@[simp] theorem not_acceptedAt_nil : ¬ s.AcceptedAt [] p := not_happensAt_nil

@[simp] theorem acceptedAt_zero : s.AcceptedAt (op :: ops) 0 ↔ s.Accepts op := happensAt_zero

@[simp] theorem acceptedAt_succ :
    s.AcceptedAt (op :: ops) (p + 1) ↔ (s.apply op).AcceptedAt ops p := Iff.rfl

theorem AcceptedAt.lt_length (h : s.AcceptedAt ops p) : p < ops.length := HappensAt.lt_length h

/-- Whether a run is launched does not depend on what comes later. -/
theorem acceptedAt_take : s.AcceptedAt (ops.take i) p ↔ p < i ∧ s.AcceptedAt ops p := by
  induction ops generalizing s i p with
  | nil => simp
  | cons op ops ih =>
    cases i with
    | zero => simp
    | succ i =>
      cases p with
      | zero => simp
      | succ p => simp [ih]

/-- Some operations launch a run that is the last one, or none at all. -/
theorem exists_latestAt (s : Session) (ops : List Operation) :
    (∃ p, s.LatestAt ops p) ∨ ∀ q, ¬ s.AcceptedAt ops q := by
  induction ops generalizing s with
  | nil => exact .inr fun _ => not_acceptedAt_nil
  | cons op ops ih =>
    obtain ⟨p, hp⟩ | hnone := ih (s.apply op)
    · -- a run among the later operations comes after one that the first may launch
      refine .inl ⟨p + 1, hp.accepted, fun q hq => ?_⟩
      obtain ⟨q, rfl⟩ := Nat.exists_eq_add_one_of_ne_zero (Nat.ne_of_gt (Nat.zero_lt_of_lt hq))
      exact hp.latest q (Nat.lt_of_succ_lt_succ hq)
    · by_cases haccepts : s.Accepts op
      · refine .inl ⟨0, acceptedAt_zero.mpr haccepts, fun q hq => ?_⟩
        obtain ⟨q, rfl⟩ := Nat.exists_eq_add_one_of_ne_zero (Nat.ne_of_gt hq)
        exact hnone q
      · refine .inr fun q => ?_
        cases q with
        | zero => exact mt acceptedAt_zero.mp haccepts
        | succ q => exact hnone q

theorem LatestAt.unique (hp : s.LatestAt ops p) (hq : s.LatestAt ops q) : p = q := by
  rcases Nat.lt_trichotomy p q with hlt | heq | hlt
  · exact absurd hq.accepted (hp.latest q hlt)
  · exact heq
  · exact absurd hp.accepted (hq.latest p hlt)

/-- A run that is launched at the end is the last one. -/
theorem latestAt_concat (h : (s.after ops).Accepts op) : s.LatestAt (ops ++ [op]) ops.length where
  accepted := ⟨op, by simp, by simpa using h⟩
  latest q hq haccepted := by
    have hlt := haccepted.lt_length
    rw [List.length_append, List.length_singleton] at hlt
    omega

/-! ### The numbers of runs -/

theorem Changes.length_cancelled {s' : Session} (h : s.Changes s') :
    s'.cancelled.length = s.cancelled.length :=
  h.induction (P := fun s' => s'.cancelled.length = s.cancelled.length)
    (fun hchange hs => hchange.length_cancelled.trans hs) rfl

theorem Changes.ticket?_eq {s' : Session} (h : s.Changes s') :
    s'.ticket? = s.ticket? ∨ s'.ticket? = none := by
  refine h.induction (P := fun s' => s'.ticket? = s.ticket? ∨ s'.ticket? = none) ?_ (.inl rfl)
  intro s₁ s₂ hchange hs₁
  obtain hsame | hnone := hchange.ticket?_eq
  · rwa [hsame]
  · exact .inr hnone

/-- An operation numbers one more run if it launches one. -/
theorem length_apply_of_accepts (h : s.Accepts op) :
    (s.apply op).cancelled.length = s.cancelled.length + 1 := by
  obtain ⟨-, commands, -, hlaunch⟩ | ⟨hnot, -⟩ := s.apply_cases op
  · rw [hlaunch]
    exact List.length_append
  · exact absurd h hnot

theorem changes_of_not_accepts (h : ¬ s.Accepts op) : s.Changes (s.apply op) := by
  obtain ⟨haccepts, -⟩ | ⟨-, hchanges⟩ := s.apply_cases op
  · exact absurd haccepts h
  · exact hchanges

theorem length_le_apply (s : Session) (op : Operation) :
    s.cancelled.length ≤ (s.apply op).cancelled.length := by
  -- numbers are only ever added, one for each run that is launched
  by_cases h : s.Accepts op
  · rw [length_apply_of_accepts h]
    exact Nat.le_succ _
  · exact Nat.le_of_eq (changes_of_not_accepts h).length_cancelled.symm

theorem length_le_after (s : Session) (ops : List Operation) :
    s.cancelled.length ≤ (s.after ops).cancelled.length := by
  induction ops generalizing s with
  | nil => exact Nat.le_refl _
  | cons op ops ih => exact Nat.le_trans (length_le_apply s op) (ih (s.apply op))

/-- Operations that launch no run come down to changes. -/
theorem changes_after (h : ∀ q, ¬ s.AcceptedAt ops q) : s.Changes (s.after ops) := by
  induction ops generalizing s with
  | nil => exact .refl
  | cons op ops ih =>
    have hfirst : ¬ s.Accepts op := mt acceptedAt_zero.mpr (h 0)
    exact (changes_of_not_accepts hfirst).trans (ih fun q => h (q + 1))

/-- A run that is launched earlier has a smaller number. -/
theorem AcceptedAt.length_lt (h : s.AcceptedAt ops p) (hpq : p < q) :
    (s.after (ops.take p)).cancelled.length < (s.after (ops.take q)).cancelled.length := by
  induction ops generalizing s p q with
  | nil => exact absurd h not_acceptedAt_nil
  | cons op ops ih =>
    obtain ⟨q, rfl⟩ := Nat.exists_eq_add_one_of_ne_zero (Nat.ne_of_gt (Nat.zero_lt_of_lt hpq))
    cases p with
    | zero =>
      have haccepts : s.Accepts op := acceptedAt_zero.mp h
      have hfirst := length_apply_of_accepts haccepts
      have hlater := length_le_after (s.apply op) (ops.take q)
      rw [List.take_succ_cons, after_cons]
      exact Nat.lt_of_lt_of_le (by rw [hfirst]; exact Nat.lt_succ_self _) hlater
    | succ p => exact ih h (Nat.lt_of_succ_lt_succ hpq)

/-- Nothing is numbered after the last run. -/
theorem LatestAt.length_after (h : s.LatestAt ops p) :
    (s.after ops).cancelled.length = (s.after (ops.take p)).cancelled.length + 1 := by
  induction ops generalizing s p with
  | nil => exact absurd h.accepted not_acceptedAt_nil
  | cons op ops ih =>
    cases p with
    | zero =>
      have haccepts : s.Accepts op := acceptedAt_zero.mp h.accepted
      have hquiet : (s.apply op).Changes ((s.apply op).after ops) :=
        changes_after fun q => h.latest (q + 1) q.succ_pos
      exact hquiet.length_cancelled.trans (length_apply_of_accepts haccepts)
    | succ p => exact ih ⟨h.accepted, fun q hq => h.latest (q + 1) (Nat.succ_lt_succ hq)⟩

/-- The active run is the one that was launched last. -/
theorem ticket_succ_of_after (l : Level) (ops : List Operation)
    (h : ((ofLevel l).after ops).ticket? = some t) :
    t + 1 = ((ofLevel l).after ops).cancelled.length := by
  -- launching gives out the next number, and changes keep or drop the active run
  revert t
  refine after_induction (P := fun s => ∀ {t}, s.ticket? = some t → t + 1 = s.cancelled.length)
    ?_ ?_ ?_ ops
  · rintro s commands - - t ⟨⟩
    simp [launch, fresh]
  · intro s s' hchange hs t ht
    rw [hchange.length_cancelled]
    obtain hsame | hnone := hchange.ticket?_eq
    · exact hs (hsame.symm.trans ht)
    · cases hnone.symm.trans ht
  · rintro t ⟨⟩

section HandsOut

variable {l : Level}

/-- A ticket is the number of runs that were launched before its own. -/
theorem HandsOut.ticket_eq (h : (ofLevel l).HandsOut ops t p) :
    t = ((ofLevel l).after (ops.take p)).cancelled.length := by
  have hticket := ticket_succ_of_after l ops h.ticket
  exact Nat.succ.inj (hticket.trans h.length_after)

/-- Every ticket is handed out for a run that was launched. -/
theorem exists_handsOut (h : ((ofLevel l).after ops).ticket? = some t) :
    ∃ p, (ofLevel l).HandsOut ops t p := by
  obtain ⟨p, hp⟩ | hnone := exists_latestAt (ofLevel l) ops
  · exact ⟨p, hp, h⟩
  · -- a new session has no run, and none was launched
    obtain hsame | hnone := (changes_after hnone).ticket?_eq
    · cases h.symm.trans hsame
    · cases h.symm.trans hnone

/-- A ticket that was handed out earlier names a run that was launched, with the number it got. -/
theorem HandsOut.of_take (h : (ofLevel l).HandsOut (ops.take i) t p) :
    (ofLevel l).AcceptedAt ops p ∧ t = ((ofLevel l).after (ops.take p)).cancelled.length := by
  obtain ⟨hpi, haccepted⟩ := acceptedAt_take.mp h.accepted
  refine ⟨haccepted, ?_⟩
  have hticket := h.ticket_eq
  rwa [List.take_take, Nat.min_eq_left (Nat.le_of_lt hpi)] at hticket

/-- A new run gets a ticket, and is not cancelled. -/
theorem handsOut_concat {source : String}
    (h : (((ofLevel l).after ops).start source).1 = .ok ()) :
    ∃ t, (ofLevel l).HandsOut (ops ++ [.start source]) t ops.length ∧
      (((ofLevel l).after ops).start source).2.isCancelled t = false := by
  have hlatest := latestAt_concat (s := ofLevel l) ⟨source, rfl, h⟩
  have hafter : (ofLevel l).after (ops ++ [.start source]) =
      (((ofLevel l).after ops).start source).2 := after_append _ _ _
  obtain ⟨commands, -, hlaunch⟩ := start_of_accepted h
  refine ⟨((ofLevel l).after ops).cancelled.length, ⟨hlatest, ?_⟩, ?_⟩
  · rw [hafter, hlaunch]
    rfl
  · simp [hlaunch, isCancelled, launch, fresh]

/-- Tickets are the same just if they were handed out for the same run. -/
theorem HandsOut.eq_iff (ht : (ofLevel l).HandsOut (ops.take i) t p)
    (hu : (ofLevel l).HandsOut (ops.take j) u q) : t = u ↔ p = q := by
  obtain ⟨hp, rfl⟩ := ht.of_take
  obtain ⟨hq, rfl⟩ := hu.of_take
  refine ⟨fun heq => ?_, fun heq => by rw [heq]⟩
  -- of two runs, the later one has the larger number
  rcases Nat.lt_trichotomy p q with hlt | hsame | hlt
  · exact absurd heq (Nat.ne_of_lt (hp.length_lt hlt))
  · exact hsame
  · exact absurd heq (Nat.ne_of_gt (hq.length_lt hlt))

/-- A run has been given its number when its ticket is handed out. -/
theorem HandsOut.lt_length (h : (ofLevel l).HandsOut (ops.take i) t p) :
    t < ((ofLevel l).after ops).cancelled.length := by
  obtain ⟨haccepted, rfl⟩ := h.of_take
  have hlater := haccepted.length_lt haccepted.lt_length
  rwa [List.take_length] at hlater

/-- The active run is the one with the ticket that is handed out now. -/
theorem HandsOut.active_iff (h : (ofLevel l).HandsOut (ops.take i) t p) :
    (ofLevel l).ActiveAfter ops p ↔ ((ofLevel l).after ops).ticket? = some t := by
  have hnow : ∀ {u}, ((ofLevel l).after ops).ticket? = some u →
      ∃ q, (ofLevel l).HandsOut (ops.take ops.length) u q := by
    intro u hu
    rw [List.take_length]
    exact exists_handsOut hu
  constructor
  · intro hactive
    obtain ⟨run, hrun⟩ := hactive.running
    have hticket : ((ofLevel l).after ops).ticket? = some run.ticket := by
      rw [ticket?, hrun]
      rfl
    obtain ⟨q, hq⟩ := hnow hticket
    have hpq : p = q := by
      refine hactive.toLatestAt.unique ?_
      rw [List.take_length] at hq
      exact hq.toLatestAt
    rw [hticket, (h.eq_iff hq).mpr hpq]
  · intro hticket
    obtain ⟨q, hq⟩ := hnow hticket
    obtain rfl : p = q := (h.eq_iff hq).mp rfl
    rw [List.take_length] at hq
    exact ⟨hq.toLatestAt, Option.map_eq_some_iff.mp hticket |>.imp fun _ hrun => hrun.1⟩

end HandsOut

/-! ### Stale tickets -/

/-- The ticket of a run that was launched and is not the active one. -/
structure Stale (s : Session) (t : Ticket) : Prop where
  numbered : t < s.cancelled.length
  ended : s.ticket? ≠ some t

theorem Stale.of_changes {s' : Session} (h : s.Stale t) (hchanges : s.Changes s') :
    s'.Stale t where
  numbered := hchanges.length_cancelled ▸ h.numbered
  ended := by
    obtain hsame | hnone := hchanges.ticket?_eq
    · rw [hsame]
      exact h.ended
    · simp [hnone]

/-- A ticket that is stale stays so: later runs get higher numbers. -/
theorem Stale.apply (h : s.Stale t) (op : Operation) : (s.apply op).Stale t := by
  obtain ⟨-, commands, -, hlaunch⟩ | ⟨-, hchanges⟩ := s.apply_cases op
  · rw [hlaunch]
    refine ⟨?_, ?_⟩
    · exact Nat.lt_of_lt_of_le h.numbered (by simp [launch, fresh])
    · have hne : s.cancelled.length ≠ t := Nat.ne_of_gt h.numbered
      simpa [ticket?, launch, fresh] using hne
  · exact h.of_changes hchanges

theorem Stale.after (h : s.Stale t) (ops : List Operation) : (s.after ops).Stale t := by
  induction ops generalizing s with
  | nil => exact h
  | cons op ops ih => exact ih (h.apply op)

end Session

/-- What the cancellation of one run changes for the others. -/
def Backdrop.told (t : Ticket) : Backdrop where
  earlier := 0
  flags := (·.set t true)
  lines := []

theorem Backdrop.spares_told {t u : Ticket} (h : u ≠ t) : (Backdrop.told t).Spares u where
  getD_eq flags := by
    simp [told, List.getD_eq_getElem?_getD, List.getElem?_set_ne h.symm]
  set_eq flags := by
    simp [told, List.set_comm _ _ h]

namespace Session

variable {s : Session} {op : Operation} {t u : Ticket}

theorem cancelTicket_eq_against (s : Session) (t : Ticket) :
    s.cancelTicket t = s.against (.told t) := by
  cases hrun : s.run? <;> simp [cancelTicket, against, Backdrop.told, hrun]

theorem isCancelled_cancelTicket (ht : t < s.cancelled.length) (u : Ticket) :
    (s.cancelTicket t).isCancelled u = (s.isCancelled u || u == t) := by
  by_cases h : u = t
  · subst h
    simp [isCancelled, cancelTicket, ht]
  · have hset : (s.cancelled.set t true).getD (0 + u) false = s.cancelled.getD u false :=
      (Backdrop.spares_told h).getD_eq s.cancelled
    rw [Nat.zero_add] at hset
    rw [beq_eq_false_iff_ne.mpr h, Bool.or_false]
    exact hset

namespace Stale

/-- The active run is spared. -/
theorem spares (h : s.Stale t) :
    ∀ run, s.run? = some run → (Backdrop.told t).Spares run.ticket := by
  intro run hrun
  refine Backdrop.spares_told fun heq => h.ended ?_
  rw [ticket?, hrun, ← heq]
  rfl

theorem tick_cancelTicket (h : s.Stale t) :
    (s.cancelTicket t).tick = (s.tick.1, s.tick.2.cancelTicket t) := by
  rw [cancelTicket_eq_against, cancelTicket_eq_against, tick_against h.spares]

theorem of_tick {e? : Option Event} {s' : Session} (h : s.Stale t) (htick : s.tick = (e?, s')) :
    (s.cancelTicket t).tick = (e?, s'.cancelTicket t) ∧ s'.Stale t := by
  refine ⟨?_, h.of_changes (changes_of_tick htick)⟩
  rw [h.tick_cancelTicket, htick]

theorem tickFor_cancelTicket (h : s.Stale t) (u : Ticket) :
    (s.cancelTicket t).tickFor u = ((s.tickFor u).1, (s.tickFor u).2.cancelTicket t) := by
  have hzero : (Backdrop.told t).earlier + u = u := Nat.zero_add u
  have hagainst := tickFor_against h.spares u
  rw [hzero] at hagainst
  rw [cancelTicket_eq_against, cancelTicket_eq_against, hagainst]

theorem cancel_cancelTicket (h : s.Stale t) :
    (s.cancelTicket t).cancel = (s.cancel.1, s.cancel.2.cancelTicket t) := by
  rw [cancelTicket_eq_against, cancelTicket_eq_against, cancel_against h.spares]

theorem start_cancelTicket (h : s.Stale t) (source : String) :
    (s.cancelTicket t).start source = ((s.start source).1, (s.start source).2.cancelTicket t) := by
  by_cases hrunning : s.phase = .running
  · rw [start_of_running hrunning, start_of_running (s := s.cancelTicket t) hrunning]
  · by_cases hwon : s.phase = .won
    · rw [start_of_won hwon, start_of_won (s := s.cancelTicket t) hwon]
    · have hplayable : s.Playable := ⟨hrunning, hwon⟩
      have hplayable' : (s.cancelTicket t).Playable := ⟨hrunning, hwon⟩
      cases hparse : parse source s.level.budget with
      | error e =>
        rw [start_of_error hplayable hparse, start_of_error hplayable' hparse]
        rfl
      | ok commands =>
        rw [start_of_ok hplayable hparse, start_of_ok hplayable' hparse]
        simp [fresh, launch, cancelTicket, List.set_append_left _ _ h.numbered]

end Stale

theorem reset_cancelTicket (s : Session) (t : Ticket) :
    (s.cancelTicket t).reset = (s.reset.1, s.reset.2.cancelTicket t) := by
  have hphase : (s.cancelTicket t).phase = s.phase := rfl
  unfold Session.reset
  rw [hphase]
  split <;> rfl

theorem cancelTicket_comm (s : Session) (t u : Ticket) :
    (s.cancelTicket t).cancelTicket u = (s.cancelTicket u).cancelTicket t := by
  by_cases h : t = u
  · rw [h]
  · simp [cancelTicket, List.set_comm _ _ h]

theorem cancelTickets_cancelTicket (s : Session) (t : Ticket) (ts : List Ticket) :
    (s.cancelTicket t).cancelTickets ts = (s.cancelTickets ts).cancelTicket t := by
  induction ts generalizing s with
  | nil => rfl
  | cons u ts ih =>
    have hfirst := s.cancelTicket_comm t u
    exact (congrArg (·.cancelTickets ts) hfirst).trans (ih (s.cancelTicket u))

namespace Stale

theorem runToCompletion_cancelTicket (h : s.Stale t) :
    (s.cancelTicket t).runToCompletion =
      (s.runToCompletion.1, s.runToCompletion.2.cancelTicket t) := by
  fun_induction Session.runToCompletion s with
  | case1 s s' htick =>
    rw [runToCompletion_of_none (h.of_tick htick).1]
    rfl
  | case2 s e s' htick ih =>
    rw [runToCompletion_of_some (h.of_tick htick).1]
    exact ih (h.of_tick htick).2

theorem runAwaiting_cancelTicket {σ : Type} (h : s.Stale t) (wait : Event → StateM σ (List Ticket))
    (before : σ) :
    ((s.cancelTicket t).runAwaiting wait).run before =
      ((((s.runAwaiting wait).run before).1.1,
        ((s.runAwaiting wait).run before).1.2.cancelTicket t),
        ((s.runAwaiting wait).run before).2) := by
  induction s using pause_induction generalizing before with
  | pause s ih =>
    rcases htick : s.tick with ⟨e?, s'⟩
    obtain ⟨htold, hstale⟩ := h.of_tick htick
    cases e? with
    | none =>
      rw [runAwaiting_of_none htick, runAwaiting_of_none htold]
      rfl
    | some e =>
      rw [runAwaiting_of_some htick, runAwaiting_of_some htold]
      -- the pauses see the same events, so the same runs are cancelled in them
      have hpaused := hstale.of_changes (changes_cancelTickets s' (wait e before).1)
      have hlater := ih e s' (wait e before).1 htick hpaused (wait e before).2
      rw [← cancelTickets_cancelTicket] at hlater
      exact hlater

/-- No operation notices that a stale ticket was cancelled. -/
theorem operation (h : s.Stale t) (op : Operation) :
    (s.cancelTicket t).answer op = s.answer op ∧
      (s.cancelTicket t).apply op = (s.apply op).cancelTicket t := by
  cases op with
  | start source => simp only [answer, Session.apply, h.start_cancelTicket, and_self]
  | cancel => simp only [answer, Session.apply, h.cancel_cancelTicket, and_self]
  | reset => simp only [answer, Session.apply, reset_cancelTicket, and_self]
  | clear => exact ⟨rfl, rfl⟩
  | tick => simp only [answer, Session.apply, h.tick_cancelTicket, and_self]
  | tickFor u => simp only [answer, Session.apply, h.tickFor_cancelTicket, and_self]
  | runToCompletion => simp only [answer, Session.apply, h.runToCompletion_cancelTicket, and_self]
  | runAwaiting wait before =>
    simp only [answer, Session.apply, h.runAwaiting_cancelTicket, and_self]
  | cancelTicket u => exact ⟨rfl, s.cancelTicket_comm t u⟩

theorem after_cancelTicket (h : s.Stale t) (ops : List Operation) :
    (s.cancelTicket t).after ops = (s.after ops).cancelTicket t := by
  induction ops generalizing s with
  | nil => rfl
  | cons op ops ih =>
    rw [after_cons, after_cons, (h.operation op).2]
    exact ih (h.apply op)

end Stale

end Session

open Session

/-- What tickets can do and what they cannot, at any time of a session and for whoever got them
when. Every ticket was handed out for a run that was launched, and two of them are the same just if
it was the same run. The ticket of the active run steps it, and a new run is not cancelled yet. The
ticket of any other run steps nothing; if it is cancelled, nothing is different from then on but
that this run counts as cancelled. -/
theorem ticket_for_its_run_only (l : Level) (ops : List Operation) :
    let new := ofLevel l
    let now := new.after ops
    (∀ i t, (new.after (ops.take i)).ticket? = some t → ∃ p, new.HandsOut (ops.take i) t p) ∧
      (∀ i j t u p q, new.HandsOut (ops.take i) t p → new.HandsOut (ops.take j) u q →
        (t = u ↔ p = q)) ∧
      (∀ i t p, new.HandsOut (ops.take i) t p → new.ActiveAfter ops p →
        now.tickFor t = now.tick) ∧
      (∀ source, (now.start source).1 = .ok () →
        ∃ t, new.HandsOut (ops ++ [.start source]) t ops.length ∧
          (now.start source).2.isCancelled t = false) ∧
      ∀ i t p, new.HandsOut (ops.take i) t p → ¬ new.ActiveAfter ops p →
        now.tickFor t = (none, now) ∧
          ∀ later,
            let spared := now.after later
            let told := (now.cancelTicket t).after later
            told = { spared with cancelled := told.cancelled } ∧
              (∀ u, told.isCancelled u = (spared.isCancelled u || u == t)) ∧
              ∀ op, told.answer op = spared.answer op := by
  intro new now
  refine ⟨fun i t ht => exists_handsOut ht, fun i j t u p q ht hu => ht.eq_iff hu,
    fun i t p ht hactive => ?_, fun source hok => handsOut_concat hok, fun i t p ht hidle => ?_⟩
  · exact if_pos (ht.active_iff.mp hactive)
  · have hstale : now.Stale t := ⟨ht.lt_length, mt ht.active_iff.mpr hidle⟩
    refine ⟨if_neg hstale.ended, fun later => ?_⟩
    intro spared told
    have htold : told = spared.cancelTicket t := hstale.after_cancelTicket later
    have hlater : spared.Stale t := hstale.after later
    rw [htold]
    exact ⟨rfl, isCancelled_cancelTicket hlater.numbered, fun op => (hlater.operation op).1⟩

/-- A run is cancelled and replaced by another one, but its driver goes on with the old ticket. -/
theorem ticket_for_its_run_only_replaced :
    let new := ofLevel Level.phaseOne
    let ops : List Operation := [.start "forward 3", .tick, .cancel, .start "forward 2"]
    let now := new.after ops
    new.HandsOut (ops.take 1) 0 0 ∧ ¬ new.ActiveAfter ops 0 ∧ now.tickFor 0 = (none, now) ∧
      (∀ op, (now.cancelTicket 0).answer op = now.answer op) ∧
      new.HandsOut (ops.take 4) 1 3 ∧ new.ActiveAfter ops 3 ∧ now.tickFor 1 = now.tick := by
  intro new ops now
  have hfirst : new.HandsOut (ops.take 1) 0 0 := by
    obtain ⟨-, -, -, hnew, -⟩ := ticket_for_its_run_only Level.phaseOne []
    obtain ⟨t, ht, -⟩ := hnew "forward 3" (by decide +kernel)
    obtain rfl : t = 0 := Option.some.inj (ht.ticket.symm.trans (by decide +kernel))
    exact ht
  have hsecond : new.HandsOut (ops.take 4) 1 3 := by
    obtain ⟨-, -, -, hnew, -⟩ := ticket_for_its_run_only Level.phaseOne (ops.take 3)
    obtain ⟨t, ht, -⟩ := hnew "forward 2" (by decide +kernel)
    obtain rfl : t = 1 := Option.some.inj (ht.ticket.symm.trans (by decide +kernel))
    exact ht
  have hreplaced : ¬ new.ActiveAfter ops 0 :=
    fun hactive => hactive.latest 3 (by decide) hsecond.accepted
  have hactive : new.ActiveAfter ops 3 :=
    ⟨hsecond.toLatestAt, Option.isSome_iff_exists.mp (by decide +kernel)⟩
  obtain ⟨-, -, hsteps, -, hstale⟩ := ticket_for_its_run_only Level.phaseOne ops
  obtain ⟨hnothing, hunnoticed⟩ := hstale 1 0 0 hfirst hreplaced
  exact ⟨hfirst, hreplaced, hnothing, (hunnoticed []).2.2, hsecond, hactive,
    hsteps 4 1 3 hsecond hactive⟩

end RobotPuzzle
