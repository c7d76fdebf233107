import RobotPuzzle.Proofs.Quenching
import RobotPuzzle.Proofs.Walling

/-!
# Hazards and the log of a board

What has become of the hazards of a board is told by the log of its requests. A cell is listed as
soon as a hazard is registered there for the first time and keeps its place in the list for good.
What kind of hazard lies there was said by the last registration of the cell. The hazard is inactive
if somebody has dealt with it since, and since the board was last rearmed.

## Main definitions

* `InFirstOrder` — each of some elements once, in the order in which they first occurred
* `Grid.registrations` — the cells of the board in which a log registers hazards
* `Grid.RegisteredLast` — where a log registers a hazard in a cell for the last time
* `Grid.DealtWithSince` — a hazard was dealt with after that, and after the board was rearmed
* `Grid.Tells` — what a log says of a hazard

## Main results

* `Grid.cells_after` — the order of the hazards after a log
* `Grid.told_concat`, `Grid.told_after` — kind and activity of a hazard, after one more request and
  after a whole log
* `hazards_follow_log` — the hazards of a board after any log, listed and looked up
-/

namespace RobotPuzzle

/-! ### The order in which hazards are listed -/

section Order

variable {α : Type} [DecidableEq α] {as seen : List α} {a : α}

/-- The elements of a list, each of them once, in the order in which they first occur there. -/
structure InFirstOrder (as seen : List α) : Prop where
  nodup : as.Nodup
  mem_iff : ∀ a, a ∈ as ↔ a ∈ seen
  ordered : as.Pairwise fun a b => seen.idxOf a < seen.idxOf b

namespace InFirstOrder

theorem nil : InFirstOrder ([] : List α) [] where
  nodup := .nil
  mem_iff _ := Iff.rfl
  ordered := .nil

/-- What has been seen stays in its place, whatever comes behind it. -/
theorem ordered_concat (h : InFirstOrder as seen) (a : α) :
    as.Pairwise fun b c => (seen ++ [a]).idxOf b < (seen ++ [a]).idxOf c := by
  refine h.ordered.imp_of_mem fun {b c} hb hc hlt => ?_
  rwa [List.idxOf_append_of_mem ((h.mem_iff b).mp hb),
    List.idxOf_append_of_mem ((h.mem_iff c).mp hc)]

theorem again (h : InFirstOrder as seen) (ha : a ∈ as) : InFirstOrder as (seen ++ [a]) where
  nodup := h.nodup
  mem_iff b := by
    rw [List.mem_append, List.mem_singleton, ← h.mem_iff]
    exact (or_iff_left_of_imp fun heq => heq ▸ ha).symm
  ordered := h.ordered_concat a

theorem first (h : InFirstOrder as seen) (ha : a ∉ as) :
    InFirstOrder (as ++ [a]) (seen ++ [a]) where
  nodup := by
    rw [← List.concat_eq_append]
    exact h.nodup.concat ha
  mem_iff b := by rw [List.mem_append, List.mem_append, h.mem_iff]
  ordered := by
    have hnew : a ∉ seen := mt (h.mem_iff a).mpr ha
    refine List.pairwise_append.mpr ⟨h.ordered_concat a, List.pairwise_singleton _ _, ?_⟩
    intro b hb c hc
    obtain rfl := List.mem_singleton.mp hc
    -- the new element stands behind all that were there
    have hseen : b ∈ seen := (h.mem_iff b).mp hb
    rw [List.idxOf_append_of_mem hseen, List.idxOf_append_of_notMem hnew]
    exact Nat.lt_add_right _ (List.idxOf_lt_length_of_mem hseen)

end InFirstOrder

end Order

namespace Hazards

variable {hs : Hazards} {h : Hazard} {c : Cell} {kind : HazardKind}

/-- A cell is added to those of a register once, behind the others. -/
theorem cells_register :
    (hs.register kind c).map Hazard.cell =
      if c ∈ hs.map Hazard.cell then hs.map Hazard.cell else hs.map Hazard.cell ++ [c] := by
  induction hs with
  | nil => rfl
  | cons g gs ih =>
    unfold register
    split
    · next hcell => simp [hcell]
    · next hcell =>
      simp only [List.map_cons, List.mem_cons, Ne.symm hcell, false_or, ih]
      split <;> rfl

theorem cells_quench (hs : Hazards) (c : Cell) :
    (hs.quench c).map Hazard.cell = hs.map Hazard.cell := by
  have hcells := congrArg (List.map Prod.fst) (hs.map_quench c)
  rwa [List.map_map, List.map_map] at hcells

/-- A register that lists no cell twice finds what it lists. -/
theorem find?_eq_some_iff (hnodup : (hs.map Hazard.cell).Nodup) :
    hs.find? c = some h ↔ h ∈ hs ∧ h.cell = c := by
  induction hs with
  | nil => simp
  | cons g gs ih =>
    obtain ⟨hnew, hrest⟩ := List.nodup_cons.mp hnodup
    rw [find?_cons, List.mem_cons]
    split
    · next hcell =>
      constructor
      · rintro ⟨⟩
        exact ⟨.inl rfl, hcell⟩
      · rintro ⟨rfl | hmem, hc⟩
        · rfl
        · -- the cell would be listed a second time
          exact absurd (List.mem_map.mpr ⟨h, hmem, hc.trans hcell.symm⟩) hnew
    · next hcell =>
      rw [ih hrest]
      refine and_congr_left fun hc => (or_iff_right ?_).symm
      rintro rfl
      exact hcell hc

end Hazards

namespace Grid

variable {g g' : Grid} {log : List Request} {q : Request} {p : Nat} {c : Cell}
  {kind : HazardKind} {kind? : Option HazardKind} {hazard : Hazard}

/-- The cell in which a request registers a hazard, if it is on the board. -/
def Request.registers? (g : Grid) : Request → Option Cell
  | .hazard _ c => if g.Contains c then some c else none
  | _ => none

/-- The cells of the board in which a log registers hazards, as often as it does. -/
def registrations (g : Grid) (log : List Request) : List Cell :=
  log.filterMap (Request.registers? g)

theorem hazards_of_grant?_wall {r : Rect} (hgrant : g.grant? (.wall r) = some g') :
    g'.hazards = g.hazards := by
  obtain ⟨-, rfl⟩ := grant?_wall_eq_some_iff.mp hgrant
  rfl

/-- The cells of the hazards change by registrations only. -/
theorem cells_of_granted (hgrant : g.grant? q = some g') :
    (∃ c, q.registers? g = some c ∧ g'.hazards.map Hazard.cell =
        if c ∈ g.hazards.map Hazard.cell then g.hazards.map Hazard.cell
        else g.hazards.map Hazard.cell ++ [c]) ∨
      q.registers? g = none ∧ g'.hazards.map Hazard.cell = g.hazards.map Hazard.cell := by
  cases q with
  | wall r => exact .inr ⟨rfl, by rw [hazards_of_grant?_wall hgrant]⟩
  | hazard kind c =>
    obtain ⟨hinside, rfl⟩ := grant?_hazard_eq_some_iff.mp hgrant
    exact .inl ⟨c, if_pos hinside, Hazards.cells_register⟩
  | deactivate c kind? =>
    obtain ⟨-, rfl⟩ := deactivate?_eq_some_iff.mp hgrant
    exact .inr ⟨rfl, Hazards.cells_quench _ c⟩
  | rearm =>
    cases hgrant
    exact .inr ⟨rfl, Hazards.cells_rearm _⟩

/-- A refused request registers nothing. -/
theorem registers?_of_refused (hgrant : g.grant? q = none) : q.registers? g = none := by
  cases q with
  | hazard kind c =>
    refine if_neg fun hinside => ?_
    cases hgrant.symm.trans (grant?_hazard_eq_some_iff.mpr ⟨hinside, rfl⟩)
  | _ => rfl

theorem registers?_after (g : Grid) (log : List Request) (q : Request) :
    q.registers? (g.after log) = q.registers? g := by
  cases q with
  | hazard kind c => simp only [Request.registers?, contains_after]
  | _ => rfl

/-- A board set up from nothing lists each cell in which a hazard was registered once, in the order
of the first registrations. -/
theorem cells_after (hnone : g.hazards = []) (log : List Request) :
    InFirstOrder ((g.after log).hazards.map Hazard.cell) (g.registrations log) := by
  -- on the log from its end: the last request registers a cell or leaves the list as it was
  induction log using List.reverseRecOn with
  | nil =>
    rw [after_nil, hnone]
    exact .nil
  | append_singleton log q ih =>
    rw [after_concat, registrations, List.filterMap_append, ← registrations]
    obtain ⟨hgrant, happly⟩ | ⟨g', hgrant, happly⟩ := apply_cases (g.after log) q
    · have hnew : [q].filterMap (Request.registers? g) = [] := by
        rw [List.filterMap_cons_none (registers?_after g log q ▸ registers?_of_refused hgrant)]
        rfl
      rwa [happly, hnew, List.append_nil]
    · rw [happly]
      obtain ⟨c, hc, hcells⟩ | ⟨hc, hcells⟩ := cells_of_granted hgrant
      · rw [registers?_after] at hc
        rw [List.filterMap_cons_some hc, List.filterMap_nil, hcells]
        split
        · next hlisted => exact ih.again hlisted
        · next hunlisted => exact ih.first hunlisted
      · rw [registers?_after] at hc
        rwa [List.filterMap_cons_none hc, List.filterMap_nil, List.append_nil, hcells]

/-! ### What a log tells of a hazard -/

/-- At a position, a log registers a hazard in a cell for the last time. -/
structure RegisteredLast (log : List Request) (c : Cell) (kind : HazardKind) (p : Nat) : Prop where
  registered : log[p]? = some (.hazard kind c)
  latest : ∀ s kind', p < s → log[s]? ≠ some (.hazard kind' c)

/-- The hazard of a cell was dealt with behind a position in a log, and behind all places where the
board is rearmed. -/
def DealtWithSince (g : Grid) (log : List Request) (c : Cell) (p : Nat) : Prop :=
  ∃ s kind?, p < s ∧ (∀ t, log[t]? = some .rearm → t < s) ∧
    g.GrantedAt log s (.deactivate c kind?)

theorem RegisteredLast.lt_length (h : RegisteredLast log c kind p) : p < log.length :=
  (List.getElem?_eq_some_iff.mp h.registered).1

/-- A request that registers nothing in the cell leaves its last registration what it was. -/
theorem RegisteredLast.concat (h : RegisteredLast log c kind p)
    (hq : ∀ kind', q ≠ .hazard kind' c) : RegisteredLast (log ++ [q]) c kind p where
  registered := by rw [List.getElem?_append_left h.lt_length, h.registered]
  latest s kind' hs hlog := by
    rcases getElem?_concat_eq_some_iff.mp hlog with hlog | ⟨-, heq⟩
    · exact h.latest s kind' hs hlog
    · exact hq kind' heq

theorem registeredLast_concat (log : List Request) (c : Cell) (kind : HazardKind) :
    RegisteredLast (log ++ [.hazard kind c]) c kind log.length where
  registered := List.getElem?_concat_length
  latest s kind' hs hlog := by
    have hlt := (List.getElem?_eq_some_iff.mp hlog).1
    rw [List.length_append, List.length_singleton] at hlt
    omega

/-- What one more request changes: rearming undoes what was done before, and the last request may be
the one that deals with the hazard. -/
theorem dealtWithSince_concat (hp : p < log.length) :
    g.DealtWithSince (log ++ [q]) c p ↔
      q ≠ .rearm ∧ g.DealtWithSince log c p ∨
        ∃ kind?, q = .deactivate c kind? ∧ ∃ g', (g.after log).grant? q = some g' := by
  have hwithin : ∀ {t}, log[t]? = some .rearm → t < log.length :=
    fun ht => (List.getElem?_eq_some_iff.mp ht).1
  constructor
  · rintro ⟨s, kind?, hps, hrearm, hgranted⟩
    rcases grantedAt_concat.mp hgranted with hbefore | ⟨rfl, rfl, hgrant⟩
    · -- if the last request rearmed the board, what was done before would not count
      refine .inl ⟨?_, s, kind?, hps, fun t ht => ?_, hbefore⟩
      · rintro rfl
        exact Nat.lt_asymm (hrearm log.length List.getElem?_concat_length) hbefore.lt_length
      · exact hrearm t (getElem?_concat_eq_some_iff.mpr (.inl ht))
    · exact .inr ⟨kind?, rfl, hgrant⟩
  · rintro (⟨hq, s, kind?, hps, hrearm, hgranted⟩ | ⟨kind?, rfl, hgrant⟩)
    · refine ⟨s, kind?, hps, fun t ht => ?_, grantedAt_concat.mpr (.inl hgranted)⟩
      rcases getElem?_concat_eq_some_iff.mp ht with ht | ⟨-, heq⟩
      · exact hrearm t ht
      · exact absurd heq hq
    · refine ⟨log.length, kind?, hp, fun t ht => ?_, grantedAt_concat.mpr (.inr ⟨rfl, rfl, hgrant⟩)⟩
      rcases getElem?_concat_eq_some_iff.mp ht with ht | ⟨-, heq⟩
      · exact hwithin ht
      · cases heq

/-- A log tells of the hazard in a cell: the kind as it was registered last, and whether the hazard
was dealt with since. -/
def Tells (g : Grid) (log : List Request) (c : Cell) (h : Hazard) : Prop :=
  ∃ p, RegisteredLast log c h.kind p ∧ (h.active = false ↔ g.DealtWithSince log c p)

/-- A request changes nothing of what is told of a cell if it neither registers a hazard there nor
deals with the one that is there, nor rearms the board. -/
theorem Tells.concat (h : g.Tells log c hazard) (hq : ∀ kind, q ≠ .hazard kind c)
    (hrearm : q ≠ .rearm)
    (hdealt : ∀ kind?, q = .deactivate c kind? → (g.after log).grant? q = none) :
    g.Tells (log ++ [q]) c hazard := by
  obtain ⟨p, hlast, hactive⟩ := h
  refine ⟨p, hlast.concat hq, ?_⟩
  rw [hactive, dealtWithSince_concat hlast.lt_length]
  refine ⟨fun hsince => .inl ⟨hrearm, hsince⟩, ?_⟩
  rintro (⟨-, hsince⟩ | ⟨kind?, heq, g', hgrant⟩)
  · exact hsince
  · cases (hdealt kind? heq).symm.trans hgrant

/-- Nothing can have come after a registration that stands at the end. -/
theorem tells_hazard (log : List Request) (c : Cell) (kind : HazardKind) :
    g.Tells (log ++ [.hazard kind c]) c { cell := c, kind } := by
  refine ⟨log.length, registeredLast_concat log c kind, nofun, ?_⟩
  rintro ⟨s, kind?, hs, -, hgranted⟩
  have hlt := hgranted.lt_length
  rw [List.length_append, List.length_singleton] at hlt
  omega

/-- A hazard that is dealt with at the end of a log has been dealt with since. -/
theorem Tells.deactivate (h : g.Tells log c hazard)
    (hgrant : (g.after log).grant? (.deactivate c kind?) = some g') :
    g.Tells (log ++ [.deactivate c kind?]) c { hazard with active := false } := by
  obtain ⟨p, hlast, -⟩ := h
  refine ⟨p, hlast.concat nofun, iff_of_true rfl ?_⟩
  exact (dealtWithSince_concat hlast.lt_length).mpr (.inr ⟨kind?, rfl, g', hgrant⟩)

/-- No hazard has been dealt with since the board was rearmed at the end of a log. -/
theorem Tells.rearm (h : g.Tells log c hazard) :
    g.Tells (log ++ [.rearm]) c { hazard with active := true } := by
  obtain ⟨p, hlast, -⟩ := h
  refine ⟨p, hlast.concat nofun, iff_of_false nofun ?_⟩
  rw [dealtWithSince_concat hlast.lt_length]
  rintro (⟨hrearm, -⟩ | ⟨kind?, heq, -⟩)
  · exact hrearm rfl
  · cases heq

/-- What is told of the hazards of a board is told of them after one more request. -/
theorem told_concat
    (told : ∀ {hazard}, (g.after log).hazardAt? c = some hazard →
      g.Contains c ∧ g.Tells log c hazard)
    (hfound : ((g.after log).apply q).hazardAt? c = some hazard) :
    g.Contains c ∧ g.Tells (log ++ [q]) c hazard := by
  obtain ⟨hgrant, happly⟩ | ⟨g', hgrant, happly⟩ := apply_cases (g.after log) q
  · -- a refused request may be a registration, but not one in a cell of the board
    rw [happly] at hfound
    obtain ⟨hinside, htells⟩ := told hfound
    refine ⟨hinside, htells.concat ?_ ?_ fun _ _ => hgrant⟩
    · rintro kind rfl
      have hfits : (g.after log).Contains c := contains_after.mpr hinside
      cases hgrant.symm.trans (grant?_hazard_eq_some_iff.mpr ⟨hfits, rfl⟩)
    · rintro rfl
      cases hgrant
  rw [happly] at hfound
  cases q with
  | wall r =>
    rw [hazardAt?, hazards_of_grant?_wall hgrant] at hfound
    exact (told hfound).imp_right fun htells => htells.concat (by simp) (by simp) (by simp)
  | hazard kind d =>
    obtain ⟨hinside, rfl⟩ := grant?_hazard_eq_some_iff.mp hgrant
    rw [hazardAt?, addHazard, Hazards.find?_register] at hfound
    split at hfound
    · next hcell =>
      subst hcell
      obtain rfl := Option.some.inj hfound
      exact ⟨contains_after.mp hinside, tells_hazard log d kind⟩
    · next hcell =>
      refine (told hfound).imp_right fun htells =>
        htells.concat (fun kind' heq => ?_) (by simp) (by simp)
      cases heq
      exact hcell rfl
  | deactivate d kind? =>
    rw [hazardAt?_of_deactivate? hgrant] at hfound
    split at hfound
    · next hcell =>
      subst hcell
      obtain ⟨before, hbefore, rfl⟩ := Option.map_eq_some_iff.mp hfound
      exact (told hbefore).imp_right fun htells => htells.deactivate hgrant
    · next hcell =>
      refine (told hfound).imp_right fun htells =>
        htells.concat (by simp) (by simp) fun kind?' heq => ?_
      cases heq
      exact absurd rfl hcell
  | rearm =>
    cases hgrant
    rw [hazardAt?, Grid.rearm, Hazards.find?_rearm] at hfound
    obtain ⟨before, hbefore, rfl⟩ := Option.map_eq_some_iff.mp hfound
    exact (told hbefore).imp_right Tells.rearm

/-- A hazard that is found on a board set up from nothing lies on it, and the log tells of it. -/
theorem told_after (hnone : g.hazards = []) (log : List Request)
    (hfound : (g.after log).hazardAt? c = some hazard) :
    g.Contains c ∧ g.Tells log c hazard := by
  induction log using List.reverseRecOn generalizing hazard with
  | nil =>
    rw [after_nil, hazardAt?, hnone] at hfound
    cases hfound
  | append_singleton log q ih =>
    rw [after_concat] at hfound
    exact told_concat ih hfound

end Grid

/-- On a board that was set up from nothing, the hazards are listed in the order in which their
cells were first registered, each cell of the board in which that happened once. The kind of a
hazard is the one that its cell was last registered with, and it is inactive just if it was dealt
with since, and since the board was last rearmed. A hazard is dealt with if it is listed as active
and of the requested kind, or no kind was asked for; then only its cell is changed. A look-up finds
what is listed. -/
theorem hazards_follow_log (size : Int) (log : List Grid.Request) :
    let empty := Grid.empty size
    let g := empty.after log
    InFirstOrder (g.hazards.map Hazard.cell) (empty.registrations log) ∧
      (∀ h ∈ g.hazards, ∃ p, Grid.RegisteredLast log h.cell h.kind p ∧
        (h.active = false ↔ empty.DealtWithSince log h.cell p)) ∧
      (∀ c kind?, (∃ g', g.deactivate? c kind? = some g') ↔
        ∃ h ∈ g.hazards, h.cell = c ∧ h.active = true ∧ (kind? = none ∨ kind? = some h.kind)) ∧
      (∀ c kind? g', g.deactivate? c kind? = some g' →
        g' = g.quench c ∧ ∀ d, d ≠ c → g'.hazardAt? d = g.hazardAt? d) ∧
      (∀ c h, g.hazardAt? c = some h ↔ h ∈ g.hazards ∧ h.cell = c) ∧
      ∀ c, g.onFire c = true ↔
        ∃ h ∈ g.hazards, h.cell = c ∧ h.active = true ∧ h.kind = .fire := by
  intro empty g
  have horder := Grid.cells_after (g := empty) rfl log
  have hlisted : ∀ c h, g.hazardAt? c = some h ↔ h ∈ g.hazards ∧ h.cell = c :=
    fun c h => Hazards.find?_eq_some_iff horder.nodup
  have hyields : ∀ (h : Hazard) kind?, h.yieldsTo kind? = true ↔
      h.active = true ∧ (kind? = none ∨ kind? = some h.kind) := by
    intro h kind?
    cases kind? <;> simp [Hazard.yieldsTo]
  refine ⟨horder, fun h hh => ?_, fun c kind? => ?_, fun c kind? g' hg' => ?_, hlisted, fun c => ?_⟩
  · exact (Grid.told_after (g := empty) rfl log ((hlisted h.cell h).mpr ⟨hh, rfl⟩)).2
  · simp only [Grid.deactivate?_eq_some_iff, exists_and_left, exists_eq, and_true, hlisted,
      hyields, and_assoc]
  · refine ⟨(Grid.deactivate?_eq_some_iff.mp hg').2, fun d hd => ?_⟩
    rw [Grid.hazardAt?_of_deactivate? hg', if_neg hd]
  · simp only [Grid.onFire_iff, hlisted, and_assoc]

/-- A fire that becomes a hole, a hole that is covered before and after the board is rearmed, and a
fire off the board. -/
theorem hazards_follow_log_registered_again :
    let log : List Grid.Request :=
      [.hazard .fire ⟨1, 1⟩, .hazard .hole ⟨0, 2⟩, .hazard .fire ⟨5, 5⟩,
        .deactivate ⟨1, 1⟩ (some .hole), .deactivate ⟨0, 2⟩ none, .hazard .hole ⟨1, 1⟩,
        .deactivate ⟨1, 1⟩ none, .rearm, .deactivate ⟨0, 2⟩ (some .hole)]
    let g := (Grid.empty 4).after log
    g.hazards = [⟨⟨1, 1⟩, .hole, true⟩, ⟨⟨0, 2⟩, .hole, false⟩] ∧
      (∃ p, Grid.RegisteredLast log ⟨1, 1⟩ .hole p ∧
        ¬ (Grid.empty 4).DealtWithSince log ⟨1, 1⟩ p) ∧
      ∃ p, Grid.RegisteredLast log ⟨0, 2⟩ .hole p ∧
        (Grid.empty 4).DealtWithSince log ⟨0, 2⟩ p := by
  intro log g
  have hhazards : g.hazards = [⟨⟨1, 1⟩, .hole, true⟩, ⟨⟨0, 2⟩, .hole, false⟩] := by decide
  obtain ⟨-, htold, -⟩ := hazards_follow_log 4 log
  obtain ⟨p, hlast, hactive⟩ := htold ⟨⟨1, 1⟩, .hole, true⟩ (hhazards ▸ List.mem_cons_self)
  obtain ⟨p', hlast', hactive'⟩ :=
    htold ⟨⟨0, 2⟩, .hole, false⟩ (hhazards ▸ List.mem_cons_of_mem _ List.mem_cons_self)
  exact ⟨hhazards, ⟨p, hlast, mt hactive.mpr nofun⟩, p', hlast', hactive'.mp rfl⟩

end RobotPuzzle
