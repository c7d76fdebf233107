import RobotPuzzle.Cell

/-!
# Hazards

A hazard is a fire or an open hole in one cell. It starts active, may be deactivated, and is
active again after the register is rearmed. The register keeps hazards in the order in which
their cells were first registered; registering a cell again replaces its hazard in place.

## Main definitions

* `HazardKind`, `Hazard` — what lies in a cell
* `Hazards` — the register
* `Hazards.find?`, `Hazards.register`, `Hazards.deactivate?`, `Hazards.rearm` — its operations

## Main results

* `Hazards.find?_register`, `Hazards.find?_rearm`, `Hazards.find?_of_deactivate?` — what each
  operation changes about what is found in a cell
-/

namespace RobotPuzzle

/-- A fire burns whoever stands in it and can be put out or covered; a hole can only be
covered. -/
inductive HazardKind | fire | hole
  deriving DecidableEq, Repr, Inhabited

namespace HazardKind

/-- The name of a kind in a level file. -/
def name : HazardKind → String
  | fire => "fire"
  | hole => "hole"

/-- The kinds in the order in which a level file's errors list them. -/
def all : List HazardKind := [fire, hole]

/-- The kind with a given name. -/
def ofName? (s : String) : Option HazardKind := all.find? (·.name == s)

end HazardKind

/-- A hazard in a cell; `active` until it is put out or covered. There is no record of what a hazard
is rearmed to, because it can be read off: only registering sets it, to a hazard of the registered
kind that is active, and nothing else changes the kind. So what a hazard is rearmed to is always the
hazard of its kind that is active, and the one flag tells all. -/
structure Hazard where
  cell : Cell
  kind : HazardKind
  active : Bool := true
  deriving DecidableEq, Repr

namespace Hazard

/-- Whether a request to deal with hazards of `kind?`, or of any kind, changes this one. -/
def yieldsTo (h : Hazard) (kind? : Option HazardKind) : Bool :=
  h.active && kind?.all (· == h.kind)

/-- An active fire. -/
def burns (h : Hazard) : Bool := h.active && h.kind == .fire

end Hazard

/-- The hazards of a board in the order in which their cells were first registered. -/
abbrev Hazards := List Hazard

namespace Hazards

/-- The hazard registered for a cell. -/
def find? (hs : Hazards) (c : Cell) : Option Hazard := List.find? (·.cell == c) hs

/-- Registers an active hazard. A cell that already has one keeps its place in the order. -/
def register (kind : HazardKind) (c : Cell) : Hazards → Hazards
  | [] => [{ cell := c, kind }]
  | h :: hs => if h.cell = c then { cell := c, kind } :: hs else h :: register kind c hs

/-- Deactivates the hazard of a cell, or answers `none` when the cell has no hazard that is
active and of the requested kind. -/
def deactivate? (hs : Hazards) (c : Cell) (kind? : Option HazardKind) : Option Hazards :=
  match hs.find? c with
  | some h =>
    if h.yieldsTo kind? then
      some (List.map (fun g => if g.cell = c then { g with active := false } else g) hs)
    else
      none
  | none => none

/-- Makes every hazard active again. -/
def rearm (hs : Hazards) : Hazards := List.map (fun h => { h with active := true }) hs

/-- Whether an active fire burns in a cell. -/
def onFire (hs : Hazards) (c : Cell) : Bool := (hs.find? c).any Hazard.burns

@[simp] theorem find?_nil (c : Cell) : find? [] c = none := rfl

theorem find?_cons (h : Hazard) (hs : Hazards) (c : Cell) :
    find? (h :: hs) c = if h.cell = c then some h else hs.find? c := by
  by_cases e : h.cell = c <;> simp [find?, e]

/-- Registering a hazard changes what is found in its cell only. -/
theorem find?_register (hs : Hazards) (kind : HazardKind) (c d : Cell) :
    (hs.register kind c).find? d = if c = d then some { cell := c, kind } else hs.find? d := by
  induction hs with
  | nil => simp [register, find?_cons]
  | cons g gs ih =>
    unfold register
    split
    · next hg =>
      subst hg
      simp only [find?_cons]
      split <;> rfl
    · next hg =>
      simp only [find?_cons, ih]
      by_cases hd : g.cell = d
      · have hcd : c ≠ d := fun hc => hg (hd.trans hc.symm)
        simp [hd, hcd]
      · simp [hd]

/-- Rearming keeps every hazard in its cell. -/
theorem find?_rearm (hs : Hazards) (c : Cell) :
    hs.rearm.find? c = (hs.find? c).map fun h => { h with active := true } := by
  induction hs with
  | nil => rfl
  | cons g gs ih =>
    simp only [rearm, List.map_cons, find?_cons] at ih ⊢
    split
    · rfl
    · exact ih

/-- Deactivating a hazard changes what is found in its cell only. -/
theorem find?_of_deactivate? {hs hs' : Hazards} {c : Cell} {kind? : Option HazardKind}
    (h : hs.deactivate? c kind? = some hs') (d : Cell) :
    hs'.find? d =
      if d = c then (hs.find? d).map fun g => { g with active := false } else hs.find? d := by
  have quiet : ∀ gs : Hazards,
      find? (List.map (fun g => if g.cell = c then { g with active := false } else g) gs) d =
        if d = c then (gs.find? d).map fun g => { g with active := false } else gs.find? d := by
    intro gs
    induction gs with
    | nil => simp
    | cons g gs ih =>
      rw [List.map_cons, find?_cons, find?_cons, ih]
      by_cases hg : g.cell = c
      · by_cases hd : d = c
        · simp [hg, hd]
        · simp [hg, hd, Ne.symm hd]
      · rw [if_neg hg]
        by_cases hd : g.cell = d
        · have hdc : d ≠ c := fun e => hg (hd.trans e)
          simp [hd, hdc]
        · simp [hd]
  unfold deactivate? at h
  split at h
  · split at h
    · rw [← Option.some.inj h]
      exact quiet hs
    · simp at h
  · simp at h

@[simp] theorem rearm_rearm (hs : Hazards) : hs.rearm.rearm = hs.rearm := by
  simp [rearm]

theorem cells_rearm (hs : Hazards) : hs.rearm.map Hazard.cell = hs.map Hazard.cell := by
  simp [rearm]

end Hazards

end RobotPuzzle
