import SpudLib.Foundation.Fault
import Mathlib.Logic.Function.Basic

/-!
# Memory of one kind of object

`Memory Cell` holds the objects of one C type.  A reference is never handed out
twice, so a freed reference stays freed and every later access to it is caught
as a use after free.
-/

namespace SpudLib

/-- The allocated objects, and the first reference never handed out. -/
structure Memory (Cell : Type*) where
  cells : Nat → Option Cell
  fresh : Nat
  unallocated : ∀ ref, fresh ≤ ref → cells ref = none

namespace Memory

variable {Cell : Type*}

def empty : Memory Cell := ⟨fun _ => none, 0, fun _ _ => rfl⟩

def Live (memory : Memory Cell) (ref : Nat) : Prop := ∃ cell, memory.cells ref = some cell

/-- `ref` was handed out and freed since. -/
def Freed (memory : Memory Cell) (ref : Nat) : Prop :=
  ref < memory.fresh ∧ memory.cells ref = none

instance (memory : Memory Cell) (ref : Nat) : Decidable (memory.Freed ref) :=
  match found : memory.cells ref with
  | none => if bound : ref < memory.fresh then .isTrue ⟨bound, found⟩ else .isFalse (bound ·.1)
  | some _ => .isFalse (by simp [Freed, found])

/-- Store a new object at a reference never used before. -/
def alloc (memory : Memory Cell) (cell : Cell) : Memory Cell where
  cells := Function.update memory.cells memory.fresh (some cell)
  fresh := memory.fresh + 1
  unallocated ref bound := by
    rw [Function.update_of_ne (by omega)]
    exact memory.unallocated ref (by omega)

def read (memory : Memory Cell) (ref : Nat) : Exec Cell :=
  match memory.cells ref with
  | some cell => .ok cell
  | none => .error .useAfterFree

theorem lt_fresh {memory : Memory Cell} {ref : Nat} {cell : Cell}
    (found : memory.cells ref = some cell) : ref < memory.fresh := by
  by_contra bound
  simp [memory.unallocated ref (by omega)] at found

/-- Overwrite the object at `ref`; without one there is nothing to overwrite. -/
def set (memory : Memory Cell) (ref : Nat) (cell : Cell) : Memory Cell where
  cells other := if other = ref then (memory.cells ref).map fun _ => cell else memory.cells other
  fresh := memory.fresh
  unallocated other bound := by
    have missing := memory.unallocated other bound
    split
    next same => rw [← same, missing, Option.map_none]
    next => exact missing

def modify (memory : Memory Cell) (ref : Nat) (change : Cell → Cell) : Exec (Memory Cell) :=
  match memory.cells ref with
  | some cell => .ok (memory.set ref (change cell))
  | none => .error .useAfterFree

def erase (memory : Memory Cell) (ref : Nat) : Memory Cell where
  cells := Function.update memory.cells ref none
  fresh := memory.fresh
  unallocated other bound := by
    by_cases same : other = ref
    · rw [same, Function.update_self]
    · rw [Function.update_of_ne same]
      exact memory.unallocated other bound

/-- Release the object at `ref`; releasing it twice is a use after free. -/
def free (memory : Memory Cell) (ref : Nat) : Exec (Memory Cell) :=
  match memory.cells ref with
  | some _ => .ok (memory.erase ref)
  | none => .error .useAfterFree

def eraseAll (memory : Memory Cell) (refs : List Nat) : Memory Cell := refs.foldl erase memory

/-- The objects of one kind in a memory of several kinds. -/
def project {Part : Type*} (view : Cell → Option Part) (memory : Memory Cell) : Memory Part where
  cells ref := (memory.cells ref).bind view
  fresh := memory.fresh
  unallocated ref bound := by rw [memory.unallocated ref bound, Option.bind_none]

@[simp] theorem alloc_cells_self (memory : Memory Cell) (cell : Cell) :
    (memory.alloc cell).cells memory.fresh = some cell := by simp [alloc]

theorem alloc_cells_of_ne (memory : Memory Cell) (cell : Cell) {ref : Nat}
    (different : ref ≠ memory.fresh) : (memory.alloc cell).cells ref = memory.cells ref := by
  simp [alloc, different]

theorem alloc_cells_of_some (memory : Memory Cell) (cell : Cell) {ref : Nat} {old : Cell}
    (found : memory.cells ref = some old) : (memory.alloc cell).cells ref = some old := by
  rw [alloc_cells_of_ne _ _ (Nat.ne_of_lt (lt_fresh found)), found]

@[simp] theorem alloc_fresh (memory : Memory Cell) (cell : Cell) :
    (memory.alloc cell).fresh = memory.fresh + 1 := rfl

@[simp] theorem erase_cells_self (memory : Memory Cell) (ref : Nat) :
    (memory.erase ref).cells ref = none := by simp [erase]

theorem erase_cells_of_ne (memory : Memory Cell) {ref other : Nat} (different : other ≠ ref) :
    (memory.erase ref).cells other = memory.cells other := by
  simp [erase, different]

theorem freed_erase {memory : Memory Cell} {ref : Nat} {cell : Cell}
    (found : memory.cells ref = some cell) : (memory.erase ref).Freed ref :=
  ⟨(lt_fresh found : ref < memory.fresh), erase_cells_self memory ref⟩

@[simp] theorem erase_fresh (memory : Memory Cell) (ref : Nat) :
    (memory.erase ref).fresh = memory.fresh := rfl

@[simp] theorem eraseAll_nil (memory : Memory Cell) : memory.eraseAll [] = memory := rfl

@[simp] theorem eraseAll_cons (memory : Memory Cell) (ref : Nat) (refs : List Nat) :
    memory.eraseAll (ref :: refs) = (memory.erase ref).eraseAll refs := rfl

theorem eraseAll_append (memory : Memory Cell) (front back : List Nat) :
    memory.eraseAll (front ++ back) = (memory.eraseAll front).eraseAll back := List.foldl_append

@[simp] theorem eraseAll_fresh (memory : Memory Cell) (refs : List Nat) :
    (memory.eraseAll refs).fresh = memory.fresh := by
  induction refs generalizing memory with
  | nil => rfl
  | cons ref rest inductionHypothesis => exact inductionHypothesis (memory.erase ref)

theorem eraseAll_cells_of_notMem (memory : Memory Cell) {refs : List Nat} {other : Nat}
    (outside : other ∉ refs) : (memory.eraseAll refs).cells other = memory.cells other := by
  induction refs generalizing memory with
  | nil => rfl
  | cons ref rest inductionHypothesis =>
    rw [List.mem_cons, not_or] at outside
    rw [eraseAll_cons, inductionHypothesis _ outside.2, erase_cells_of_ne _ outside.1]

theorem eraseAll_cells_of_mem (memory : Memory Cell) {refs : List Nat} {ref : Nat}
    (member : ref ∈ refs) : (memory.eraseAll refs).cells ref = none := by
  induction refs generalizing memory with
  | nil => cases member
  | cons first rest inductionHypothesis =>
    by_cases later : ref ∈ rest
    · exact inductionHypothesis (memory.erase first) later
    · obtain rfl := (List.mem_cons.mp member).resolve_right later
      rw [eraseAll_cons, eraseAll_cells_of_notMem _ later, erase_cells_self]

theorem Freed.ne {memory : Memory Cell} {ref other : Nat} {cell : Cell}
    (freed : memory.Freed ref) (found : memory.cells other = some cell) : ref ≠ other := by
  rintro rfl
  cases freed.2.symm.trans found

theorem Freed.alloc {memory : Memory Cell} {ref : Nat} (freed : memory.Freed ref) (cell : Cell) :
    (memory.alloc cell).Freed ref :=
  ⟨Nat.lt_succ_of_lt freed.1,
    (alloc_cells_of_ne _ _ (Nat.ne_of_lt freed.1)).trans freed.2⟩

theorem Freed.eraseAll {memory : Memory Cell} {ref : Nat} (freed : memory.Freed ref)
    (refs : List Nat) : (memory.eraseAll refs).Freed ref := by
  refine ⟨by rw [eraseAll_fresh]; exact freed.1, ?_⟩
  by_cases member : ref ∈ refs
  · exact eraseAll_cells_of_mem _ member
  · rw [eraseAll_cells_of_notMem _ member]
    exact freed.2

theorem Freed.erase {memory : Memory Cell} {ref : Nat} (freed : memory.Freed ref) (other : Nat) :
    (memory.erase other).Freed ref := freed.eraseAll [other]

theorem set_cells_self {memory : Memory Cell} {ref : Nat} {old : Cell} (cell : Cell)
    (found : memory.cells ref = some old) : (memory.set ref cell).cells ref = some cell := by
  simp [set, found]

theorem set_cells_of_ne (memory : Memory Cell) {ref other : Nat} (cell : Cell)
    (different : other ≠ ref) : (memory.set ref cell).cells other = memory.cells other := by
  simp [set, different]

theorem Live.alloc {memory : Memory Cell} {ref : Nat} (live : memory.Live ref) (cell : Cell) :
    (memory.alloc cell).Live ref := by
  obtain ⟨old, found⟩ := live
  exact ⟨old, alloc_cells_of_some _ _ found⟩

theorem Live.erase {memory : Memory Cell} {ref other : Nat} (live : memory.Live ref)
    (different : ref ≠ other) : (memory.erase other).Live ref := by
  obtain ⟨old, found⟩ := live
  exact ⟨old, (erase_cells_of_ne _ different).trans found⟩

theorem Live.set {memory : Memory Cell} {ref : Nat} (live : memory.Live ref) (other : Nat)
    (cell : Cell) : (memory.set other cell).Live ref := by
  obtain ⟨old, found⟩ := live
  by_cases here : ref = other
  · exact ⟨cell, here ▸ set_cells_self cell found⟩
  · exact ⟨old, (set_cells_of_ne _ _ here).trans found⟩

theorem ext_cells {first second : Memory Cell} (cells : first.cells = second.cells)
    (fresh : first.fresh = second.fresh) : first = second := by
  cases first
  cases second
  cases cells
  cases fresh
  rfl

theorem set_self {memory : Memory Cell} {ref : Nat} {cell : Cell}
    (found : memory.cells ref = some cell) : memory.set ref cell = memory := by
  have cells : (memory.set ref cell).cells = memory.cells := by
    funext other
    by_cases same : other = ref
    · rw [same, set_cells_self cell found, found]
    · exact set_cells_of_ne memory cell same
  exact ext_cells cells rfl

theorem erase_set (memory : Memory Cell) (ref : Nat) (cell : Cell) :
    (memory.set ref cell).erase ref = memory.erase ref := by
  have cells : ((memory.set ref cell).erase ref).cells = (memory.erase ref).cells := by
    funext other
    by_cases same : other = ref
    · simp [erase, same]
    · simp [erase, set, same]
  exact ext_cells cells rfl

theorem set_alloc (memory : Memory Cell) (first second : Cell) :
    (memory.alloc first).set memory.fresh second = memory.alloc second := by
  have cells : ((memory.alloc first).set memory.fresh second).cells =
      (memory.alloc second).cells := by
    funext other
    by_cases same : other = memory.fresh
    · simp [set, same]
    · simp [set, alloc, same]
  exact ext_cells cells rfl

@[simp] theorem set_fresh (memory : Memory Cell) (ref : Nat) (cell : Cell) :
    (memory.set ref cell).fresh = memory.fresh := rfl

theorem read_of_some {memory : Memory Cell} {ref : Nat} {cell : Cell}
    (found : memory.cells ref = some cell) : memory.read ref = .ok cell := by
  simp [read, found]

theorem read_of_none {memory : Memory Cell} {ref : Nat}
    (missing : memory.cells ref = none) : memory.read ref = .error .useAfterFree := by
  simp [read, missing]

theorem read_eq_ok_iff {memory : Memory Cell} {ref : Nat} {cell : Cell} :
    memory.read ref = .ok cell ↔ memory.cells ref = some cell := by
  cases found : memory.cells ref <;> simp [read, found]

theorem free_of_some {memory : Memory Cell} {ref : Nat} {cell : Cell}
    (found : memory.cells ref = some cell) : memory.free ref = .ok (memory.erase ref) := by
  simp [free, found]

theorem modify_of_some {memory : Memory Cell} {ref : Nat} {cell : Cell}
    (found : memory.cells ref = some cell) (change : Cell → Cell) :
    memory.modify ref change = .ok (memory.set ref (change cell)) := by
  simp [modify, found]

theorem live_of_eraseAll {memory : Memory Cell} {refs : List Nat} {ref : Nat}
    (live : (memory.eraseAll refs).Live ref) : ref ∉ refs ∧ memory.Live ref := by
  obtain ⟨cell, found⟩ := live
  by_cases member : ref ∈ refs
  · rw [eraseAll_cells_of_mem _ member] at found
    cases found
  · rw [eraseAll_cells_of_notMem _ member] at found
    exact ⟨member, cell, found⟩

theorem live_of_erase {memory : Memory Cell} {ref other : Nat}
    (live : (memory.erase ref).Live other) : other ≠ ref ∧ memory.Live other := by
  obtain ⟨away, before⟩ := @live_of_eraseAll _ memory [ref] other live
  exact ⟨fun same => away (List.mem_singleton.mpr same), before⟩

theorem live_of_set {memory : Memory Cell} {ref other : Nat} {cell : Cell}
    (live : (memory.set ref cell).Live other) : memory.Live other := by
  obtain ⟨now, found⟩ := live
  by_cases same : other = ref
  · subst same
    cases before : memory.cells other with
    | none => simp [set, before] at found
    | some old => exact ⟨old, before⟩
  · exact ⟨now, (set_cells_of_ne memory cell same).symm.trans found⟩

end Memory

end SpudLib
