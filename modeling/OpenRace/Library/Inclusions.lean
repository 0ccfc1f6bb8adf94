import Mathlib.Tactic.Common

/-! Inclusion constraints between places that hold objects, and their least solution. -/

namespace OpenRace.Library

/-- Every object has a place of its own, its cell. What is stored into a constant object is lost. -/
structure Inclusions (Place Obj : Type*) where
  cell : Obj → Place
  constant : Obj → Prop
  index : Place → Obj → Option Obj
  address : Place → Obj → Prop
  copy : Place → Place → Prop
  load : Place → Place → Prop
  store : Place → Place → Prop
  offset : Place → Place → Prop

namespace Inclusions

variable {Place Obj : Type*} (system : Inclusions Place Obj)

inductive Holds : Place → Obj → Prop
  | address {p : Place} {o : Obj} (h : system.address p o) : Holds p o
  | copy {p q : Place} {o : Obj} (h : system.copy p q) (ho : Holds p o) : Holds q o
  | load {p q : Place} {o o' : Obj} (h : system.load p q) (ho : Holds p o) (hcell : Holds (system.cell o) o') :
      Holds q o'
  | store {p q : Place} {o o' : Obj} (h : system.store p q) (ho : Holds q o) (hmutable : ¬system.constant o)
      (hsource : Holds p o') : Holds (system.cell o) o'
  | offset {p q : Place} {o o' : Obj} (h : system.offset p q) (ho : Holds p o) (hindex : system.index q o = some o') :
      Holds q o'

structure Solution (holds : Place → Obj → Prop) : Prop where
  address : ∀ {p o}, system.address p o → holds p o
  copy : ∀ {p q o}, system.copy p q → holds p o → holds q o
  load : ∀ {p q o o'}, system.load p q → holds p o → holds (system.cell o) o' → holds q o'
  store : ∀ {p q o o'}, system.store p q → holds q o → ¬system.constant o → holds p o' → holds (system.cell o) o'
  offset : ∀ {p q o o'}, system.offset p q → holds p o → system.index q o = some o' → holds q o'

variable {system} {holds : Place → Obj → Prop}

theorem Solution.of_holds (h : system.Solution holds) {p : Place} {o : Obj} (ho : system.Holds p o) : holds p o := by
  induction ho with
  | address ha => exact h.address ha
  | copy hc _ ih => exact h.copy hc ih
  | load hl _ _ ih ihcell => exact h.load hl ih ihcell
  | store hs _ hmutable _ ih ihsource => exact h.store hs ih hmutable ihsource
  | offset hi _ hindex ih => exact h.offset hi ih hindex

/-- Sets that are solutions and hold no more than they must are the least solution. -/
theorem Solution.eq_holds (h : system.Solution holds) (hsound : ∀ p o, holds p o → system.Holds p o) :
    holds = system.Holds := by
  funext p o
  exact propext ⟨hsound p o, h.of_holds⟩

end Inclusions

end OpenRace.Library
