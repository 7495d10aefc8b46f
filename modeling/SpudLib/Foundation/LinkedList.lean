import SpudLib.Foundation.Memory
import Mathlib.Data.List.Nodup
import Mathlib.Data.List.Range

/-!
# Linked lists in memory

A list cell holds data and the address of the next cell.  `Segment` relates the
address where a walk starts, the cells it passes and the address it reaches;
`Chain` is a walk that ends at NULL.  What a walk passes is determined by where
it starts, so a chain never visits a cell twice.
-/

namespace SpudLib

structure Link (Data : Type) where
  data : Data
  next : Option Nat
  deriving DecidableEq

namespace Link

variable {Data : Type}

/-- Walking from `start` along `next` passes exactly `cells` and reaches `stop`. -/
def Segment (memory : Memory (Link Data)) :
    Option Nat → List (Nat × Data) → Option Nat → Prop
  | start, [], stop => start = stop
  | start, (ref, data) :: rest, stop =>
      start = some ref ∧ ∃ next, memory.cells ref = some ⟨data, next⟩ ∧
        Segment memory next rest stop

/-- The NULL-terminated list at `start` holds exactly `cells`. -/
def Chain (memory : Memory (Link Data)) (start : Option Nat) (cells : List (Nat × Data)) : Prop :=
  Segment memory start cells none

def refs (cells : List (Nat × Data)) : List Nat := cells.map Prod.fst

def lastRef (cells : List (Nat × Data)) : Option Nat := (refs cells).getLast?

@[simp] theorem refs_nil : refs ([] : List (Nat × Data)) = [] := rfl

@[simp] theorem refs_cons (ref : Nat) (data : Data) (cells : List (Nat × Data)) :
    refs ((ref, data) :: cells) = ref :: refs cells := rfl

@[simp] theorem refs_append (front back : List (Nat × Data)) :
    refs (front ++ back) = refs front ++ refs back := List.map_append

@[simp] theorem lastRef_nil : lastRef ([] : List (Nat × Data)) = none := rfl

@[simp] theorem lastRef_concat (cells : List (Nat × Data)) (ref : Nat) (data : Data) :
    lastRef (cells ++ [(ref, data)]) = some ref := by
  simp [lastRef]

theorem once_of_nodup {front back : List (Nat × Data)} {ref : Nat} {data : Data}
    (nodup : (refs (front ++ (ref, data) :: back)).Nodup) :
    ref ∉ refs front ∧ ref ∉ refs back ∧ (refs (front ++ back)).Nodup := by
  rw [refs_append, refs_cons, List.nodup_middle, List.nodup_cons, List.mem_append, not_or] at nodup
  exact ⟨nodup.1.1, nodup.1.2, by rw [refs_append]; exact nodup.2⟩

/-- In a list without repetition an address says where the list is cut. -/
theorem split_unique {front back other behind : List (Nat × Data)} {ref : Nat}
    {data content : Data} (nodup : (refs (front ++ (ref, data) :: back)).Nodup)
    (same : front ++ (ref, data) :: back = other ++ (ref, content) :: behind) :
    data = content ∧ back = behind := by
  induction front generalizing other with
  | nil =>
    cases other with
    | nil =>
      cases same
      exact ⟨rfl, rfl⟩
    | cons cell other =>
      obtain ⟨rfl, rfl⟩ := List.cons.inj same
      simp [refs] at nodup
  | cons cell front inductionHypothesis =>
    cases other with
    | nil =>
      obtain ⟨rfl, rfl⟩ := List.cons.inj same
      simp [refs] at nodup
    | cons head other =>
      exact inductionHypothesis (List.nodup_cons.mp nodup).2 (List.cons.inj same).2

variable {memory : Memory (Link Data)} {start stop : Option Nat} {cells : List (Nat × Data)}

@[simp] theorem segment_nil : Segment memory start [] stop ↔ start = stop := Iff.rfl

theorem segment_cons {ref : Nat} {data : Data} :
    Segment memory start ((ref, data) :: cells) stop ↔
      start = some ref ∧ ∃ next, memory.cells ref = some ⟨data, next⟩ ∧
        Segment memory next cells stop := Iff.rfl

theorem segment_append {front back : List (Nat × Data)} :
    Segment memory start (front ++ back) stop ↔
      ∃ middle, Segment memory start front middle ∧ Segment memory middle back stop := by
  induction front generalizing start with
  | nil => simp
  | cons cell rest inductionHypothesis =>
    obtain ⟨ref, data⟩ := cell
    simp only [List.cons_append, segment_cons, inductionHypothesis]
    constructor
    · rintro ⟨here, next, found, middle, reached, onward⟩
      exact ⟨middle, ⟨here, next, found, reached⟩, onward⟩
    · rintro ⟨middle, ⟨here, next, found, reached⟩, onward⟩
      exact ⟨here, next, found, middle, reached, onward⟩

/-- A walk depends on the cells it passes only. -/
theorem Segment.frame {later : Memory (Link Data)} (walk : Segment memory start cells stop)
    (same : ∀ ref ∈ refs cells, later.cells ref = memory.cells ref) :
    Segment later start cells stop := by
  induction cells generalizing start with
  | nil => exact walk
  | cons cell rest inductionHypothesis =>
    obtain ⟨ref, data⟩ := cell
    obtain ⟨here, next, found, onward⟩ := walk
    refine ⟨here, next, (same ref (by simp)).trans found, inductionHypothesis onward ?_⟩
    intro other member
    exact same other (by simp [member])

theorem Segment.found (walk : Segment memory start cells stop) {ref : Nat} {data : Data}
    (member : (ref, data) ∈ cells) : ∃ next, memory.cells ref = some ⟨data, next⟩ := by
  obtain ⟨front, back, rfl⟩ := List.append_of_mem member
  obtain ⟨middle, _, onward⟩ := segment_append.mp walk
  obtain ⟨_, next, found, _⟩ := segment_cons.mp onward
  exact ⟨next, found⟩

theorem Segment.lt_fresh (walk : Segment memory start cells stop) :
    ∀ ref ∈ refs cells, ref < memory.fresh := by
  intro ref member
  obtain ⟨⟨_, data⟩, inside, rfl⟩ := List.mem_map.mp member
  obtain ⟨next, found⟩ := walk.found inside
  exact Memory.lt_fresh found

theorem Chain.unique {others : List (Nat × Data)} (first : Chain memory start cells)
    (second : Chain memory start others) : cells = others := by
  induction cells generalizing start others with
  | nil =>
    cases first
    cases others with
    | nil => rfl
    | cons cell rest => cases second.1
  | cons cell rest inductionHypothesis =>
    obtain ⟨ref, data⟩ := cell
    obtain ⟨rfl, next, found, onward⟩ := first
    cases others with
    | nil => cases second
    | cons other tail =>
      obtain ⟨otherRef, otherData⟩ := other
      obtain ⟨same, otherNext, otherFound, otherOnward⟩ := second
      cases same
      cases found.symm.trans otherFound
      rw [inductionHypothesis onward otherOnward]

theorem Chain.nodup (chain : Chain memory start cells) : (refs cells).Nodup := by
  induction cells generalizing start with
  | nil => exact List.nodup_nil
  | cons cell rest inductionHypothesis =>
    obtain ⟨ref, data⟩ := cell
    obtain ⟨rfl, next, found, onward⟩ := chain
    refine List.nodup_cons.mpr ⟨?_, inductionHypothesis onward⟩
    intro again
    obtain ⟨⟨twin, other⟩, inside, same⟩ := List.mem_map.mp again
    obtain rfl : ref = twin := same.symm
    obtain ⟨front, back, rfl⟩ := List.append_of_mem inside
    -- the walk from the repeated cell would be a proper suffix of itself
    obtain ⟨middle, _, suffix⟩ := segment_append.mp onward
    obtain ⟨rfl, _⟩ := segment_cons.mp suffix
    have whole : Chain memory (some ref) ((ref, data) :: (front ++ (ref, other) :: back)) :=
      segment_cons.mpr ⟨rfl, next, found, onward⟩
    have equal := congrArg List.length (whole.unique suffix)
    simp at equal
    omega

theorem Chain.length_le_fresh (chain : Chain memory start cells) :
    cells.length ≤ memory.fresh := by
  have bounded : refs cells ⊆ List.range memory.fresh := fun ref member =>
    List.mem_range.mpr (chain.lt_fresh ref member)
  simpa [refs] using chain.nodup.length_le_of_subset bounded

theorem Segment.last_next {front : List (Nat × Data)} {ref : Nat} {data : Data}
    (walk : Segment memory start (front ++ [(ref, data)]) stop) :
    memory.cells ref = some ⟨data, stop⟩ := by
  obtain ⟨middle, _, last⟩ := segment_append.mp walk
  obtain ⟨_, next, found, rfl⟩ := segment_cons.mp last
  exact found

/-- Redirecting the last cell of a walk changes only where the walk ends. -/
theorem Segment.setNext_last {front : List (Nat × Data)} {ref : Nat} {data : Data}
    (walk : Segment memory start (front ++ [(ref, data)]) stop) (once : ref ∉ refs front)
    (target : Option Nat) :
    Segment (memory.set ref ⟨data, target⟩) start (front ++ [(ref, data)]) target := by
  obtain ⟨middle, before, last⟩ := segment_append.mp walk
  obtain ⟨here, next, found, _⟩ := segment_cons.mp last
  refine segment_append.mpr ⟨middle, before.frame ?_, here, target,
    Memory.set_cells_self _ found, rfl⟩
  intro other member
  exact Memory.set_cells_of_ne _ _ (fun same => once (same ▸ member))

theorem Chain.set_data (front : List (Nat × Data)) {back : List (Nat × Data)} {ref : Nat}
    {data : Data}
    (chain : Chain memory start (front ++ (ref, data) :: back)) (change : Data) :
    ∃ next, memory.cells ref = some ⟨data, next⟩ ∧
      Chain (memory.set ref ⟨change, next⟩) start (front ++ (ref, change) :: back) := by
  obtain ⟨once, notBehind, _⟩ := once_of_nodup chain.nodup
  obtain ⟨middle, reached, onward⟩ := segment_append.mp chain
  obtain ⟨here, next, found, onward⟩ := segment_cons.mp onward
  refine ⟨next, found, segment_append.mpr ⟨middle, ?_, here, next,
    Memory.set_cells_self _ found, ?_⟩⟩
  · exact reached.frame fun other member =>
      Memory.set_cells_of_ne _ _ (by rintro rfl; exact once member)
  · exact onward.frame fun other member =>
      Memory.set_cells_of_ne _ _ (by rintro rfl; exact notBehind member)

theorem Chain.concat {front : List (Nat × Data)} {ref added : Nat} {data addedData : Data}
    (chain : Chain memory start (front ++ [(ref, data)]))
    (found : memory.cells added = some ⟨addedData, none⟩)
    (outside : added ∉ refs (front ++ [(ref, data)])) :
    Chain (memory.set ref ⟨data, some added⟩) start
      (front ++ [(ref, data)] ++ [(added, addedData)]) := by
  obtain ⟨once, _, _⟩ := once_of_nodup chain.nodup
  have different : added ≠ ref := fun same => outside (by simp [same])
  refine segment_append.mpr ⟨some added, chain.setNext_last once _, rfl, none, ?_, rfl⟩
  rw [Memory.set_cells_of_ne _ _ different]
  exact found

theorem Chain.start_eq_head (chain : Chain memory start cells) :
    start = (refs cells).head? := by
  cases cells with
  | nil => exact chain
  | cons cell rest => exact chain.1

/-- Read off the list at an address, at most `bound` cells of it. -/
def walk (memory : Memory (Link Data)) : (bound : Nat) → Option Nat → List (Nat × Data)
  | bound + 1, some ref =>
      match memory.cells ref with
      | some cell => (ref, cell.data) :: walk memory bound cell.next
      | none => []
  | _, _ => []

theorem Chain.walk_eq (chain : Chain memory start cells) {bound : Nat}
    (enough : cells.length ≤ bound) : walk memory bound start = cells := by
  induction cells generalizing start bound with
  | nil =>
    cases chain
    cases bound <;> rfl
  | cons cell rest inductionHypothesis =>
    obtain ⟨ref, data⟩ := cell
    obtain ⟨rfl, next, found, onward⟩ := chain
    cases bound with
    | zero => simp at enough
    | succ bound =>
      simp only [walk, found]
      rw [inductionHypothesis onward (by simpa using enough)]

end Link

end SpudLib
