import RobotPuzzle.Grid

/-!
# Dealing with hazards

A fire is put out, and a hazard of either kind is covered, where it lies and is still active. This
changes nothing of the board but that the hazard of the cell is no longer active, so rearming makes
up for it.

## Main definitions

* `Hazards.quench`, `Grid.quench` — the hazards and the board after the hazard of a cell was dealt
  with
* `Grid.Burning`, `Grid.Hazardous` — what can be put out, and what can be covered

## Main results

* `Grid.deactivate?_eq_some_iff` — when a hazard can be dealt with, and what that changes
* `Hazards.rearm_quench`, `Hazards.map_quench` — what is not changed
-/

namespace RobotPuzzle

/-- The hazards of a board after the one of a cell was dealt with. -/
def Hazards.quench (hs : Hazards) (c : Cell) : Hazards :=
  List.map (fun h => if h.cell = c then { h with active := false } else h) hs

namespace Hazards

variable {hs hs' : Hazards} {c : Cell} {kind? : Option HazardKind}

/-- A hazard is dealt with if one is found that yields, and only its cell is changed. -/
theorem deactivate?_eq_some_iff :
    hs.deactivate? c kind? = some hs' ↔
      (∃ h, hs.find? c = some h ∧ h.yieldsTo kind? = true) ∧ hs' = hs.quench c := by
  unfold deactivate? quench
  cases hfind : hs.find? c with
  | none => simp
  | some h =>
    by_cases hyields : h.yieldsTo kind? = true
    · simp only [hyields, if_true, Option.some.injEq, exists_eq_left', true_and]
      exact eq_comm
    · simp [hyields]

theorem rearm_quench (hs : Hazards) (c : Cell) : (hs.quench c).rearm = hs.rearm := by
  -- rearming does not ask what was active
  simp only [quench, rearm, List.map_map]
  refine List.map_congr_left fun h _ => ?_
  by_cases hcell : h.cell = c <;> simp [hcell]

theorem map_quench (hs : Hazards) (c : Cell) :
    (hs.quench c).map (fun h => (h.cell, h.kind)) = hs.map fun h => (h.cell, h.kind) := by
  simp only [quench, List.map_map]
  refine List.map_congr_left fun h _ => ?_
  by_cases hcell : h.cell = c <;> simp [hcell]

end Hazards

namespace Grid

variable {g g' : Grid} {c : Cell} {kind? : Option HazardKind}

/-- An active fire lies in the cell. -/
def Burning (g : Grid) (c : Cell) : Prop :=
  ∃ h, g.hazardAt? c = some h ∧ h.active = true ∧ h.kind = .fire

/-- An active hazard of either kind lies in the cell. -/
def Hazardous (g : Grid) (c : Cell) : Prop := ∃ h, g.hazardAt? c = some h ∧ h.active = true

/-- The board after the hazard of a cell was dealt with. -/
def quench (g : Grid) (c : Cell) : Grid := { g with hazards := g.hazards.quench c }

theorem deactivate?_eq_some_iff :
    g.deactivate? c kind? = some g' ↔
      (∃ h, g.hazardAt? c = some h ∧ h.yieldsTo kind? = true) ∧ g' = g.quench c := by
  simp only [deactivate?, Option.map_eq_some_iff, Hazards.deactivate?_eq_some_iff, hazardAt?,
    quench]
  constructor
  · rintro ⟨_, ⟨hyields, rfl⟩, rfl⟩
    exact ⟨hyields, rfl⟩
  · rintro ⟨hyields, rfl⟩
    exact ⟨_, ⟨hyields, rfl⟩, rfl⟩

/-- A cell burns if the hazard registered for it is an active fire. -/
theorem onFire_iff :
    g.onFire c = true ↔ ∃ h, g.hazardAt? c = some h ∧ h.active = true ∧ h.kind = .fire := by
  simp [onFire, Hazards.onFire, hazardAt?, Hazard.burns, Option.any_eq_true]

theorem hazardAt?_of_deactivate? (h : g.deactivate? c kind? = some g') (d : Cell) :
    g'.hazardAt? d =
      if d = c then (g.hazardAt? d).map fun h => { h with active := false } else g.hazardAt? d := by
  obtain ⟨hs, hdeactivate, rfl⟩ := Option.map_eq_some_iff.mp h
  exact Hazards.find?_of_deactivate? hdeactivate d

/-- A fire can be put out where one burns. -/
theorem deactivate?_fire_eq_some_iff :
    g.deactivate? c (some .fire) = some g' ↔ g.Burning c ∧ g' = g.quench c := by
  have hyields : ∀ h : Hazard, h.yieldsTo (some .fire) = true ↔
      h.active = true ∧ h.kind = .fire := by
    intro h
    simp [Hazard.yieldsTo, eq_comm (a := HazardKind.fire)]
  simp only [deactivate?_eq_some_iff, hyields, Burning]

/-- A hazard can be covered where an active one lies. -/
theorem deactivate?_any_eq_some_iff :
    g.deactivate? c none = some g' ↔ g.Hazardous c ∧ g' = g.quench c := by
  -- without a kind that is asked for, any active hazard yields
  have hyields : ∀ h : Hazard, h.yieldsTo none = true ↔ h.active = true := by
    intro h
    simp [Hazard.yieldsTo]
  simp only [deactivate?_eq_some_iff, hyields, Hazardous]

theorem deactivate?_fire_eq_none_iff : g.deactivate? c (some .fire) = none ↔ ¬ g.Burning c := by
  rw [Option.eq_none_iff_forall_ne_some]
  simp [deactivate?_fire_eq_some_iff]

theorem deactivate?_any_eq_none_iff : g.deactivate? c none = none ↔ ¬ g.Hazardous c := by
  rw [Option.eq_none_iff_forall_ne_some]
  simp [deactivate?_any_eq_some_iff]

/-- Rearming makes up for every hazard that was dealt with. -/
theorem rearm_of_deactivate? (h : g.deactivate? c kind? = some g') : g'.rearm = g.rearm := by
  obtain ⟨-, rfl⟩ := deactivate?_eq_some_iff.mp h
  simp only [rearm, quench, Hazards.rearm_quench]

end Grid

end RobotPuzzle
