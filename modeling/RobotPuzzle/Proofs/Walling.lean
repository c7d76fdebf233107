import RobotPuzzle.Proofs.Building
import Mathlib.Data.List.Induction
import Mathlib.Data.Set.Card

/-!
# Walls and the log of a board

A board is set up by requests, one after the other. A request that does not fit is refused and
changes nothing. What the board has become is told by the log of all requests: its walls are the
cells of the rectangles that were accepted, however these overlap, and nothing else. Only two
corners of a rectangle are looked at, before any of its cells is filled, so no rectangle is ever
filled in part.

## Main definitions

* `Grid.Request`, `Grid.grant?` — what may be asked of a board, and what comes of it
* `Grid.after` — the board after a log of requests
* `Grid.GrantedAt` — which requests of a log were granted

## Main results

* `Grid.grantedAt_concat` — what one more request adds to those that were granted
* `Grid.walled_after_iff` — where there are walls after a log
* `walls_are_union_of_accepted` — when a rectangle is refused, and what all the others come to
-/

namespace RobotPuzzle

namespace Grid

/-- What may be asked of a board. -/
inductive Request
  | wall (r : Rect)
  | hazard (kind : HazardKind) (c : Cell)
  | deactivate (c : Cell) (kind? : Option HazardKind)
  | rearm
  deriving DecidableEq, Repr

/-- The board after a request, or `none` if the request is refused: a wall or a hazard that does not
fit, or nothing to deactivate. -/
def grant? (g : Grid) : Request → Option Grid
  | .wall r => (g.addWall? r).toOption
  | .hazard kind c => (g.addHazard? kind c).toOption
  | .deactivate c kind? => g.deactivate? c kind?
  | .rearm => some g.rearm

/-- The board after a request, which changes nothing if it is refused. -/
def apply (g : Grid) (q : Request) : Grid := (g.grant? q).getD g

/-- The board after a log of requests. -/
def after (g : Grid) (log : List Request) : Grid := log.foldl apply g

/-- The request stands in the log at a position, and it was granted when its turn came. -/
def GrantedAt (g : Grid) (log : List Request) (p : Nat) (q : Request) : Prop :=
  log[p]? = some q ∧ ∃ g', (g.after (log.take p)).grant? q = some g'

variable {g g' : Grid} {q q' : Request} {log : List Request} {p : Nat} {r : Rect} {c : Cell}
  {kind : HazardKind}

/-! ### One request -/

theorem toOption_eq_some_iff {ε α : Type} {x : Except ε α} {a : α} :
    x.toOption = some a ↔ x = .ok a := by
  cases x <;> simp [Except.toOption]

theorem grant?_wall_eq_some_iff : g.grant? (.wall r) = some g' ↔ g.Holds r ∧ g' = g.addWall r := by
  rw [grant?, toOption_eq_some_iff, addWall?_eq_ok_iff]

theorem grant?_hazard_eq_some_iff :
    g.grant? (.hazard kind c) = some g' ↔ g.Contains c ∧ g' = g.addHazard kind c := by
  rw [grant?, toOption_eq_some_iff, addHazard?_eq_ok_iff]

theorem apply_of_granted (h : g.grant? q = some g') : g.apply q = g' := by
  rw [apply, h]
  rfl

theorem apply_of_refused (h : g.grant? q = none) : g.apply q = g := by
  rw [apply, h]
  rfl

/-- A request is refused, which changes nothing, or it is granted. -/
theorem apply_cases (g : Grid) (q : Request) :
    g.grant? q = none ∧ g.apply q = g ∨ ∃ g', g.grant? q = some g' ∧ g.apply q = g' := by
  cases h : g.grant? q with
  | none => exact .inl ⟨rfl, apply_of_refused h⟩
  | some g' => exact .inr ⟨g', rfl, apply_of_granted h⟩

theorem size_of_granted (h : g.grant? q = some g') : g'.size = g.size := by
  cases q with
  | wall r =>
    obtain ⟨-, rfl⟩ := grant?_wall_eq_some_iff.mp h
    rfl
  | hazard kind c =>
    obtain ⟨-, rfl⟩ := grant?_hazard_eq_some_iff.mp h
    rfl
  | deactivate c kind? =>
    obtain ⟨hazards, -, rfl⟩ := Option.map_eq_some_iff.mp h
    rfl
  | rearm =>
    cases h
    rfl

/-- Walls come from rectangles that are accepted only. -/
theorem walls_of_granted (h : g.grant? q = some g') :
    (∃ r, q = .wall r) ∨ g'.walls = g.walls := by
  cases q with
  | wall r => exact .inl ⟨r, rfl⟩
  | hazard kind c =>
    obtain ⟨-, rfl⟩ := grant?_hazard_eq_some_iff.mp h
    exact .inr rfl
  | deactivate c kind? =>
    obtain ⟨hazards, -, rfl⟩ := Option.map_eq_some_iff.mp h
    exact .inr rfl
  | rearm =>
    cases h
    exact .inr rfl

/-- A rectangle is refused just if it is inverted or has a cell off the board. -/
theorem exists_addWall?_eq_error_iff :
    (∃ e, g.addWall? r = .error e) ↔ r.Inverted ∨ ∃ c, r.Contains c ∧ ¬ g.Contains c := by
  have hfits : (∃ e, g.addWall? r = .error e) ↔ ¬ g.Holds r := by
    cases h : g.addWall? r with
    | ok g' => simp [(addWall?_eq_ok_iff.mp h).1]
    | error e =>
      have hnot : ¬ g.Holds r := by
        intro hholds
        have hok := addWall?_eq_ok_iff.mpr ⟨hholds, rfl⟩
        cases h.symm.trans hok
      simp [hnot]
  -- a board holds what is not inverted and lies on it
  rw [hfits, Holds, not_and_or, not_not]
  simp only [not_forall, exists_prop]

/-! ### A log of requests -/

@[simp] theorem after_nil (g : Grid) : g.after [] = g := rfl

theorem after_concat (g : Grid) (log : List Request) (q : Request) :
    g.after (log ++ [q]) = (g.after log).apply q := List.foldl_concat ..

theorem GrantedAt.lt_length (h : g.GrantedAt log p q) : p < log.length :=
  (List.getElem?_eq_some_iff.mp h.1).1

theorem getElem?_concat_eq_some_iff :
    (log ++ [q'])[p]? = some q ↔ log[p]? = some q ∨ p = log.length ∧ q' = q := by
  rcases Nat.lt_trichotomy p log.length with hlt | rfl | hlt
  · rw [List.getElem?_append_left hlt]
    simp [Nat.ne_of_lt hlt]
  · simp
  · have hend : (log ++ [q']).length ≤ p := by simpa using hlt
    rw [List.getElem?_eq_none hend, List.getElem?_eq_none (Nat.le_of_lt hlt)]
    simp [Nat.ne_of_gt hlt]

/-- One more request is granted or not, and the others were granted if they were before. -/
theorem grantedAt_concat :
    g.GrantedAt (log ++ [q']) p q ↔
      g.GrantedAt log p q ∨
        p = log.length ∧ q' = q ∧ ∃ g', (g.after log).grant? q = some g' := by
  rw [GrantedAt, getElem?_concat_eq_some_iff, or_and_right, and_assoc]
  refine or_congr (and_congr_right fun hp => ?_) (and_congr_right fun hp => ?_)
  · have hlt := (List.getElem?_eq_some_iff.mp hp).1
    rw [List.take_append_of_le_length (Nat.le_of_lt hlt)]
  · rw [hp, List.take_left]

theorem size_after (g : Grid) (log : List Request) : (g.after log).size = g.size := by
  induction log using List.reverseRecOn with
  | nil => rfl
  | append_singleton log q ih =>
    rw [after_concat, ← ih]
    obtain ⟨-, happly⟩ | ⟨g', hgrant, happly⟩ := apply_cases (g.after log) q
    · rw [happly]
    · rw [happly, size_of_granted hgrant]

theorem contains_after : (g.after log).Contains c ↔ g.Contains c := by
  unfold Contains
  rw [size_after]

/-! ### Walls after a log -/

/-- A request adds the cells of its rectangle to the walls, if it brings one that is accepted. -/
theorem walled_apply_iff :
    (g.apply q).Walled c ↔
      g.Walled c ∨ ∃ r, q = .wall r ∧ (∃ g', g.grant? (.wall r) = some g') ∧ r.Contains c := by
  obtain ⟨hgrant, happly⟩ | ⟨g', hgrant, happly⟩ := apply_cases g q
  · -- a rectangle that was refused is not among those accepted
    rw [happly]
    refine (or_iff_left ?_).symm
    rintro ⟨r, rfl, ⟨g', hgrant'⟩, -⟩
    cases hgrant.symm.trans hgrant'
  · rw [happly]
    obtain ⟨r, rfl⟩ | hwalls := walls_of_granted hgrant
    · obtain ⟨hholds, rfl⟩ := grant?_wall_eq_some_iff.mp hgrant
      rw [walled_addWall, or_comm]
      refine or_congr_right ⟨fun hr => ⟨r, rfl, ⟨_, hgrant⟩, hr⟩, ?_⟩
      rintro ⟨r', heq, -, hr'⟩
      cases heq
      exact hr'
    · have hsame : g'.Walled c ↔ g.Walled c := by rw [Walled, hwalls, Walled]
      rw [hsame]
      refine (or_iff_left_of_imp ?_).symm
      rintro ⟨r, rfl, -, hr⟩
      obtain ⟨hholds, rfl⟩ := grant?_wall_eq_some_iff.mp hgrant
      exact hsame.mp (walled_addWall.mpr (.inl hr))

/-- There are walls where there were some before the log, and in all cells of the rectangles that
were accepted. -/
theorem walled_after_iff :
    (g.after log).Walled c ↔
      g.Walled c ∨ ∃ r, (∃ p, g.GrantedAt log p (.wall r)) ∧ r.Contains c := by
  -- on the log from its end: the last request is the only one that may be new
  induction log using List.reverseRecOn with
  | nil => simp [GrantedAt]
  | append_singleton log q ih =>
    rw [after_concat, walled_apply_iff, ih, or_assoc]
    refine or_congr_right ?_
    simp only [grantedAt_concat, exists_or, or_and_right, exists_eq_left]
    refine or_congr_right (exists_congr fun r => ?_)
    rw [and_assoc]

/-- Every cell of an accepted rectangle is on the board. -/
theorem GrantedAt.contains (h : g.GrantedAt log p (.wall r)) (hc : r.Contains c) :
    g.Contains c := by
  obtain ⟨-, g', hgrant⟩ := h
  obtain ⟨hholds, -⟩ := grant?_wall_eq_some_iff.mp hgrant
  exact contains_after.mp (hholds.2 c hc)

/-- Walls stay listed in order, so that no cell is listed twice. -/
theorem pairwise_walls_after (h : g.walls.Pairwise Cell.lt) :
    (g.after log).walls.Pairwise Cell.lt := by
  induction log using List.reverseRecOn with
  | nil => exact h
  | append_singleton log q ih =>
    rw [after_concat]
    obtain ⟨-, happly⟩ | ⟨g', hgrant, happly⟩ := apply_cases (g.after log) q
    · rwa [happly]
    · rw [happly]
      obtain ⟨r, rfl⟩ | hwalls := walls_of_granted hgrant
      · obtain ⟨-, rfl⟩ := grant?_wall_eq_some_iff.mp hgrant
        exact pairwise_insertCells ih
      · rwa [hwalls]

/-- Walls that are listed in order are as many as the cells that hold one. -/
theorem encard_walled (h : g.walls.Pairwise Cell.lt) :
    Set.encard {c | g.Walled c} = g.walls.length := by
  have hne : ∀ {c d : Cell}, c.lt d → c ≠ d := by
    rintro c _ hlt rfl
    exact Cell.lt_irrefl c hlt
  have hnodup : g.walls.Nodup := h.imp hne
  have hset : {c | g.Walled c} = (g.walls.toFinset : Set Cell) := by
    ext c
    simp [Walled]
  rw [hset, Set.encard_coe_eq_coe_finsetCard, List.toFinset_card_of_nodup hnodup]

end Grid

/-- On a board that was set up from nothing, a rectangle is refused just if it is inverted or has a
cell off the board, and then nothing is changed; otherwise exactly its cells become walls. So there
are walls in the cells of the accepted rectangles and nowhere else, all of them on the board, and
each cell counts once, in however many rectangles it lies. The robot may stand in the others. -/
theorem walls_are_union_of_accepted (size : Int) (log : List Grid.Request) :
    let g := (Grid.empty size).after log
    let accepted (r : Rect) := ∃ p, (Grid.empty size).GrantedAt log p (.wall r)
    (∀ c, g.Contains c ↔ (0 ≤ c.x ∧ c.x < size) ∧ (0 ≤ c.z ∧ c.z < size)) ∧
      (∀ r, ((∃ e, g.addWall? r = .error e) ↔
          r.Inverted ∨ ∃ c, r.Contains c ∧ ¬ g.Contains c) ∧
        (∀ e, g.addWall? r = .error e → g.apply (.wall r) = g) ∧
        ∀ g', g.addWall? r = .ok g' →
          g.apply (.wall r) = g' ∧ (∀ c, g'.Walled c ↔ g.Walled c ∨ r.Contains c) ∧
            g'.hazards = g.hazards) ∧
      (∀ c, g.Walled c ↔ ∃ r, accepted r ∧ r.Contains c) ∧
      (∀ c, g.Walled c → g.Contains c) ∧
      Set.encard {c | ∃ r, accepted r ∧ r.Contains c} = g.walls.length ∧
      ∀ c, g.Passable c ↔ g.Contains c ∧ ∀ r, accepted r → ¬ r.Contains c := by
  intro g accepted
  have hwalled : ∀ c, g.Walled c ↔ ∃ r, accepted r ∧ r.Contains c := by
    intro c
    have hnone : ¬ (Grid.empty size).Walled c := List.not_mem_nil
    exact Grid.walled_after_iff.trans (or_iff_right hnone)
  refine ⟨fun c => Grid.contains_after, fun r => ⟨Grid.exists_addWall?_eq_error_iff, ?_, ?_⟩,
    hwalled, fun c hc => ?_, ?_, fun c => ?_⟩
  · intro e he
    exact Grid.apply_of_refused (by rw [Grid.grant?, he]; rfl)
  · intro g' hg'
    obtain ⟨-, rfl⟩ := Grid.addWall?_eq_ok_iff.mp hg'
    refine ⟨Grid.apply_of_granted (by rw [Grid.grant?, hg']; rfl), fun c => ?_, rfl⟩
    rw [Grid.walled_addWall, or_comm]
  · obtain ⟨r, ⟨p, hp⟩, hr⟩ := (hwalled c).mp hc
    exact Grid.contains_after.mpr (hp.contains hr)
  · rw [← Grid.encard_walled (Grid.pairwise_walls_after List.Pairwise.nil)]
    exact congrArg Set.encard (Set.ext fun c => (hwalled c).symm)
  · rw [Grid.Passable, hwalled]
    refine and_congr_right fun _ => ?_
    simp only [not_exists, not_and]

/-- Two rectangles that overlap in a cell, one that leaves the board, and one that is inverted. -/
theorem walls_are_union_of_accepted_overlapping :
    let log : List Grid.Request :=
      [.wall ⟨0, 2, 1, 2⟩, .wall ⟨2, 3, 0, 1⟩, .wall ⟨0, 4, 3, 3⟩, .wall ⟨1, 0, 0, 0⟩]
    ((Grid.empty 4).after log).walls =
        [⟨0, 1⟩, ⟨0, 2⟩, ⟨1, 1⟩, ⟨1, 2⟩, ⟨2, 0⟩, ⟨2, 1⟩, ⟨2, 2⟩, ⟨3, 0⟩, ⟨3, 1⟩] ∧
      Set.encard {c | ∃ r, (∃ p, (Grid.empty 4).GrantedAt log p (.wall r)) ∧ r.Contains c} = 9 := by
  intro log
  have hwalls : ((Grid.empty 4).after log).walls =
      [⟨0, 1⟩, ⟨0, 2⟩, ⟨1, 1⟩, ⟨1, 2⟩, ⟨2, 0⟩, ⟨2, 1⟩, ⟨2, 2⟩, ⟨3, 0⟩, ⟨3, 1⟩] := by decide
  obtain ⟨-, -, -, -, hcount, -⟩ := walls_are_union_of_accepted 4 log
  refine ⟨hwalls, hcount.trans ?_⟩
  rw [hwalls]
  rfl

end RobotPuzzle
