import SpudLib.Eventing.Dispatcher

/-!
# What the binding lists do

The functions of the dispatcher that edit binding lists, described by the list
of bindings an event has before and after.  `Edits` is the frame they share:
only the named event and the named bindings are touched.
-/

namespace SpudLib.Dispatcher

open Link

variable {Data : Type}

def listed (dispatch : Dispatcher Data) (event : Nat) : List (Nat × BindingData) :=
  match dispatch.events.cells event with
  | some notifier => walk dispatch.bindings dispatch.bindings.fresh notifier.bindings
  | none => []

/-- The event exists and its binding list is exactly `cells`. -/
def Lists (dispatch : Dispatcher Data) (event : Nat) (cells : List (Nat × BindingData)) : Prop :=
  ∃ notifier, dispatch.events.cells event = some notifier ∧
    Chain dispatch.bindings notifier.bindings cells

theorem Lists.listed_eq {dispatch : Dispatcher Data} {event : Nat}
    {cells : List (Nat × BindingData)} (lists : dispatch.Lists event cells) :
    dispatch.listed event = cells := by
  obtain ⟨notifier, found, chain⟩ := lists
  simp only [listed, found]
  exact chain.walk_eq chain.length_le_fresh

theorem Lists.nodup {dispatch : Dispatcher Data} {event : Nat}
    {cells : List (Nat × BindingData)} (lists : dispatch.Lists event cells) :
    (refs cells).Nodup :=
  lists.choose_spec.2.nodup

theorem Lists.found {dispatch : Dispatcher Data} {event binding : Nat} {data : BindingData}
    {front back : List (Nat × BindingData)}
    (lists : dispatch.Lists event (front ++ (binding, data) :: back)) :
    dispatch.bindings.cells binding = some ⟨data, (refs back).head?⟩ := by
  obtain ⟨notifier, _, chain⟩ := lists
  obtain ⟨middle, _, onward⟩ := segment_append.mp chain
  obtain ⟨_, next, found, behind⟩ := segment_cons.mp onward
  rw [found, Chain.start_eq_head behind]

/-- Between the two dispatchers only the list head of `event` and the bindings
in `owned` differ. -/
structure Edits (before : Dispatcher Data) (event : Nat) (owned : List Nat)
    (after : Dispatcher Data) : Prop where
  shape : after = { before with events := after.events, bindings := after.bindings }
  others : ∀ other, other ≠ event → after.events.cells other = before.events.cells other
  outside : ∀ binding, binding ∉ owned →
    after.bindings.cells binding = before.bindings.cells binding
  fresh : before.bindings.fresh ≤ after.bindings.fresh

namespace Edits

variable {before middle after : Dispatcher Data} {event : Nat} {owned : List Nat}

theorem refl (before : Dispatcher Data) (event : Nat) (owned : List Nat) :
    Edits before event owned before :=
  ⟨rfl, fun _ _ => rfl, fun _ _ => rfl, le_refl _⟩

theorem trans (first : Edits before event owned middle) (second : Edits middle event owned after) :
    Edits before event owned after where
  shape := by rw [second.shape, first.shape]
  others other different := (second.others other different).trans (first.others other different)
  outside binding foreign := (second.outside binding foreign).trans (first.outside binding foreign)
  fresh := first.fresh.trans second.fresh

theorem mono {more : List Nat} (edits : Edits before event owned after) (subset : owned ⊆ more) :
    Edits before event more after where
  shape := edits.shape
  others := edits.others
  outside binding foreign := edits.outside binding fun member => foreign (subset member)
  fresh := edits.fresh

theorem freed (edits : Edits before event owned after) {binding : Nat}
    (freed : before.bindings.Freed binding) (foreign : binding ∉ owned) :
    after.bindings.Freed binding :=
  ⟨Nat.lt_of_lt_of_le freed.1 edits.fresh, (edits.outside binding foreign).trans freed.2⟩

theorem lists_other (edits : Edits before event owned after) {other : Nat}
    (different : other ≠ event) {cells : List (Nat × BindingData)}
    (lists : before.Lists other cells) (apart : ∀ binding ∈ refs cells, binding ∉ owned) :
    after.Lists other cells := by
  obtain ⟨notifier, found, chain⟩ := lists
  refine ⟨notifier, (edits.others other different).trans found, chain.frame ?_⟩
  intro binding member
  exact edits.outside binding (apart binding member)

end Edits

section Primitives

variable {dispatch : Dispatcher Data} {event : Nat}

theorem setHead_ok {notifier : Notifier} (found : dispatch.events.cells event = some notifier)
    (head : Option Nat) :
    dispatch.setHead event head =
      .ok { dispatch with
        events := dispatch.events.set event { notifier with bindings := head } } := by
  simp only [setHead, Memory.modify_of_some found, Exec.ok_bind, Exec.pure_eq_ok]

theorem setNext_ok {binding : Nat} {cell : Link BindingData}
    (found : dispatch.bindings.cells binding = some cell) (next : Option Nat) :
    dispatch.setNext binding next =
      .ok { dispatch with bindings := dispatch.bindings.set binding ⟨cell.data, next⟩ } := by
  simp only [setNext, Memory.modify_of_some found, Exec.ok_bind, Exec.pure_eq_ok]

theorem modifyBinding_ok {binding : Nat} {cell : Link BindingData}
    (found : dispatch.bindings.cells binding = some cell) (change : BindingData → BindingData) :
    dispatch.modifyBinding binding change =
      .ok { dispatch with
        bindings := dispatch.bindings.set binding ⟨change cell.data, cell.next⟩ } := by
  simp only [modifyBinding, Memory.modify_of_some found, Exec.ok_bind, Exec.pure_eq_ok]

theorem freeBinding_ok {binding : Nat} {cell : Link BindingData}
    (found : dispatch.bindings.cells binding = some cell) :
    dispatch.freeBinding binding =
      .ok { dispatch with bindings := dispatch.bindings.erase binding } := by
  simp only [freeBinding, Memory.free_of_some found, Exec.ok_bind, Exec.pure_eq_ok]

theorem edits_events (event : Nat) (notifier : Notifier) (owned : List Nat) :
    Edits dispatch event owned { dispatch with events := dispatch.events.set event notifier } :=
  ⟨rfl, fun _ different => Memory.set_cells_of_ne _ _ different, fun _ _ => rfl, le_refl _⟩

theorem edits_bindings {binding : Nat} {owned : List Nat} (mine : binding ∈ owned)
    (cell : Link BindingData) (event : Nat) :
    Edits dispatch event owned
      { dispatch with bindings := dispatch.bindings.set binding cell } :=
  ⟨rfl, fun _ _ => rfl, fun _ foreign =>
    Memory.set_cells_of_ne _ _ fun same => foreign (same ▸ mine), le_refl _⟩

theorem edits_erase {binding : Nat} {owned : List Nat} (mine : binding ∈ owned) (event : Nat) :
    Edits dispatch event owned { dispatch with bindings := dispatch.bindings.erase binding } :=
  ⟨rfl, fun _ _ => rfl, fun _ foreign =>
    Memory.erase_cells_of_ne _ fun same => foreign (same ▸ mine), le_refl _⟩

end Primitives

/-- A chain looked at from inside: the event's head leads over `front` to
`middle`, from where the rest of the list is `back`. -/
structure Splits (dispatch : Dispatcher Data) (event : Nat) (front : List (Nat × BindingData))
    (middle : Option Nat) (back : List (Nat × BindingData)) : Prop where
  reached : ∃ notifier, dispatch.events.cells event = some notifier ∧
    Segment dispatch.bindings notifier.bindings front middle
  onward : Chain dispatch.bindings middle back
  nodup : (refs (front ++ back)).Nodup

theorem Splits.lists {dispatch : Dispatcher Data} {event : Nat} {middle : Option Nat}
    {front back : List (Nat × BindingData)} (splits : dispatch.Splits event front middle back) :
    dispatch.Lists event (front ++ back) := by
  obtain ⟨notifier, found, reached⟩ := splits.reached
  exact ⟨notifier, found, segment_append.mpr ⟨middle, reached, splits.onward⟩⟩

theorem Lists.splits {dispatch : Dispatcher Data} {event : Nat}
    {front back : List (Nat × BindingData)} (lists : dispatch.Lists event (front ++ back)) :
    ∃ middle, dispatch.Splits event front middle back := by
  obtain ⟨notifier, found, chain⟩ := lists
  obtain ⟨middle, reached, onward⟩ := segment_append.mp chain
  exact ⟨middle, ⟨notifier, found, reached⟩, onward, chain.nodup⟩

/-- `relink` makes the list skip from `front` to `target`; what lies behind
`target` must not use the cells of `front`. -/
theorem relink_ok {dispatch : Dispatcher Data} {event : Nat} {middle target : Option Nat}
    {front back rest : List (Nat × BindingData)}
    (splits : dispatch.Splits event front middle back)
    (onward : Chain dispatch.bindings target rest) (nodup : (refs (front ++ rest)).Nodup) :
    ∃ after, dispatch.relink event (lastRef front) target = .ok after ∧
      after.Splits event front target rest ∧ Edits dispatch event (refs front) after := by
  obtain ⟨notifier, found, reached⟩ := splits.reached
  rcases front.eq_nil_or_concat' with rfl | ⟨init, ⟨prev, data⟩, rfl⟩
  · refine ⟨_, setHead_ok found target, ⟨?_, onward, nodup⟩, edits_events _ _ _⟩
    exact ⟨_, Memory.set_cells_self _ found, rfl⟩
  · have foundPrev := reached.last_next
    have apart := nodup
    rw [List.append_assoc, List.singleton_append] at apart
    obtain ⟨once, notBehind, _⟩ := once_of_nodup apart
    refine ⟨{ dispatch with bindings := dispatch.bindings.set prev ⟨data, target⟩ }, ?_,
      ⟨⟨notifier, found, reached.setNext_last once target⟩, ?_, nodup⟩, ?_⟩
    · rw [lastRef_concat]
      exact setNext_ok foundPrev target
    · refine onward.frame fun ref member => Memory.set_cells_of_ne _ _ ?_
      rintro rfl
      exact notBehind member
    · exact edits_bindings (by simp) _ _

/-- Unlinking a binding: its neighbours are joined and it points nowhere. -/
theorem unlink_ok {dispatch : Dispatcher Data} {event binding : Nat} {data : BindingData}
    {front back : List (Nat × BindingData)}
    (lists : dispatch.Lists event (front ++ (binding, data) :: back)) :
    ∃ next after, dispatch.bindings.cells binding = some ⟨data, next⟩ ∧
      dispatch.relink event (lastRef front) next = .ok after ∧
      after.Splits event front next back ∧
      after.bindings.cells binding = some ⟨data, next⟩ ∧
      Edits dispatch event (refs front) after := by
  obtain ⟨middle, splits⟩ := lists.splits
  obtain ⟨rfl, next, found, onward⟩ := splits.onward
  obtain ⟨once, _, nodup⟩ := once_of_nodup splits.nodup
  obtain ⟨after, relinked, rejoined, edits⟩ := relink_ok splits onward nodup
  exact ⟨next, after, found, relinked, rejoined, (edits.outside binding once).trans found, edits⟩

section Remove

variable {dispatch : Dispatcher Data} {event cb : Nat}

theorem removeBindingLoop_missing {bound : Nat} {curr prev : Option Nat}
    (front : List (Nat × BindingData)) {back : List (Nat × BindingData)}
    (chain : Chain dispatch.bindings curr back)
    (enough : back.length ≤ bound) (last : prev = lastRef front)
    (absent : ∀ cell ∈ back, cell.2.cb ≠ cb) :
    removeBindingLoop event cb bound curr prev dispatch =
      .ok (none, lastRef (front ++ back), dispatch) := by
  induction back generalizing bound curr prev front with
  | nil =>
    cases chain
    cases bound <;> simp [removeBindingLoop, last]
  | cons cell rest inductionHypothesis =>
    obtain ⟨binding, data⟩ := cell
    obtain ⟨rfl, next, found, onward⟩ := chain
    cases bound with
    | zero => simp at enough
    | succ bound =>
      have different : data.cb ≠ cb := absent (binding, data) (by simp)
      simp only [removeBindingLoop, Memory.read_of_some found, Exec.ok_bind, different, if_false]
      rw [inductionHypothesis (front ++ [(binding, data)]) onward (by simpa using enough)
        (by simp) fun cell member => absent cell (by simp [member])]
      simp

theorem removeBindingLoop_found {bound binding : Nat} {data : BindingData}
    {curr prev : Option Nat} (front : List (Nat × BindingData))
    {passed back : List (Nat × BindingData)}
    (lists : dispatch.Lists event (front ++ (passed ++ (binding, data) :: back)))
    (chain : Chain dispatch.bindings curr (passed ++ (binding, data) :: back))
    (enough : passed.length < bound) (last : prev = lastRef front)
    (absent : ∀ cell ∈ passed, cell.2.cb ≠ cb) (matching : data.cb = cb) :
    ∃ after, removeBindingLoop event cb bound curr prev dispatch =
        .ok (some binding, lastRef (front ++ passed), after) ∧
      (∃ middle, after.Splits event (front ++ passed) middle back) ∧
      after.bindings.cells binding = some ⟨data, none⟩ ∧
      Edits dispatch event (binding :: refs (front ++ passed)) after := by
  induction passed generalizing bound curr prev front with
  | nil =>
    cases bound with
    | zero => simp at enough
    | succ bound =>
      obtain ⟨rfl, _, found, _⟩ := chain
      obtain ⟨target, joined, foundTarget, relinked, splits, kept, edits⟩ := unlink_ok lists
      cases found.symm.trans foundTarget
      obtain ⟨once, notBehind, _⟩ := once_of_nodup lists.nodup
      refine ⟨{ joined with bindings := joined.bindings.set binding ⟨data, none⟩ }, ?_, ?_, ?_, ?_⟩
      · simp only [removeBindingLoop, Memory.read_of_some found, Exec.ok_bind, matching, if_true,
          last, relinked, setNext_ok kept, Exec.pure_eq_ok, List.append_nil]
      · obtain ⟨notifier, foundEvent, reached⟩ := splits.reached
        rw [List.append_nil]
        refine ⟨_, ⟨notifier, foundEvent, reached.frame fun ref member => ?_⟩,
          splits.onward.frame fun ref member => ?_, splits.nodup⟩
        · exact Memory.set_cells_of_ne _ _ (by rintro rfl; exact once member)
        · exact Memory.set_cells_of_ne _ _ (by rintro rfl; exact notBehind member)
      · exact Memory.set_cells_self _ kept
      · rw [List.append_nil]
        exact (edits.mono (List.subset_cons_self _ _)).trans
          (edits_bindings (List.mem_cons_self) _ _)
  | cons cell rest inductionHypothesis =>
    obtain ⟨other, otherData⟩ := cell
    obtain ⟨rfl, next, found, onward⟩ := chain
    cases bound with
    | zero => simp at enough
    | succ bound =>
      have different : otherData.cb ≠ cb := absent (other, otherData) (by simp)
      simp only [removeBindingLoop, Memory.read_of_some found, Exec.ok_bind, different, if_false]
      have shifted := inductionHypothesis (front ++ [(other, otherData)]) (by simpa using lists)
        onward (Nat.lt_of_succ_lt_succ enough) (lastRef_concat _ _ _).symm
        fun cell member => absent cell (by simp [member])
      simpa using shifted

/-- `_remove_binding` of a callback that is not bound changes nothing. -/
theorem removeBinding_missing {cells : List (Nat × BindingData)}
    (lists : dispatch.Lists event cells) (absent : ∀ cell ∈ cells, cell.2.cb ≠ cb) :
    dispatch.removeBinding event cb = .ok (none, lastRef cells, dispatch) := by
  obtain ⟨notifier, found, chain⟩ := lists
  simp only [removeBinding, Memory.read_of_some found, Exec.ok_bind]
  exact removeBindingLoop_missing [] chain chain.length_le_fresh rfl absent

/-- `_remove_binding` of a bound callback takes its binding out of the list. -/
theorem removeBinding_found {binding : Nat} {data : BindingData}
    {front back : List (Nat × BindingData)}
    (lists : dispatch.Lists event (front ++ (binding, data) :: back))
    (absent : ∀ cell ∈ front, cell.2.cb ≠ cb) (matching : data.cb = cb) :
    ∃ after, dispatch.removeBinding event cb = .ok (some binding, lastRef front, after) ∧
      (∃ middle, after.Splits event front middle back) ∧
      after.bindings.cells binding = some ⟨data, none⟩ ∧
      Edits dispatch event (binding :: refs front) after := by
  have whole := lists
  obtain ⟨notifier, found, chain⟩ := lists
  have enough : front.length < dispatch.bindings.fresh := by
    have := chain.length_le_fresh
    simp only [List.length_append, List.length_cons] at this
    omega
  simp only [removeBinding, Memory.read_of_some found, Exec.ok_bind]
  exact removeBindingLoop_found [] whole chain enough rfl absent matching

end Remove

/-- Putting a binding back after `front`. -/
theorem insertBinding_ok {dispatch : Dispatcher Data} {event binding : Nat} {data : BindingData}
    {middle : Option Nat} {front back : List (Nat × BindingData)}
    (splits : dispatch.Splits event front middle back)
    (found : dispatch.bindings.cells binding = some ⟨data, none⟩)
    (outside : binding ∉ refs (front ++ back)) :
    ∃ after, dispatch.insertBinding event binding (lastRef front) = .ok after ∧
      after.Lists event (front ++ (binding, data) :: back) ∧
      Edits dispatch event (binding :: refs front) after := by
  obtain ⟨notifier, foundEvent, reached⟩ := splits.reached
  have inFront : ∀ ref ∈ refs front, ref ≠ binding := by
    rintro ref member rfl
    exact outside (by simp [member])
  have inBack : ∀ ref ∈ refs back, ref ≠ binding := by
    rintro ref member rfl
    exact outside (by simp [member])
  rcases front.eq_nil_or_concat' with rfl | ⟨init, ⟨prev, prevData⟩, rfl⟩
  · obtain rfl : notifier.bindings = middle := reached
    cases headIs : notifier.bindings with
    | none =>
      have empty : back = [] := by
        have chain := splits.onward
        rw [headIs] at chain
        cases back with
        | nil => rfl
        | cons cell rest => cases chain.1
      subst empty
      refine ⟨{ dispatch with
          events := dispatch.events.set event { notifier with bindings := some binding } }, ?_,
        ⟨_, Memory.set_cells_self _ foundEvent, rfl, none, found, rfl⟩, edits_events _ _ _⟩
      simp only [insertBinding, Memory.read_of_some foundEvent, Exec.ok_bind, headIs,
        setHead_ok foundEvent]
    | some head =>
      let pointed := { dispatch with bindings := dispatch.bindings.set binding ⟨data, some head⟩ }
      have kept : pointed.events.cells event = some notifier := foundEvent
      refine ⟨{ pointed with
          events := pointed.events.set event { notifier with bindings := some binding } }, ?_,
        ⟨_, Memory.set_cells_self _ kept, rfl, some head, Memory.set_cells_self _ found, ?_⟩,
        (edits_bindings (by simp) _ _).trans (edits_events _ _ _)⟩
      · simp only [insertBinding, Memory.read_of_some foundEvent, Exec.ok_bind, headIs, lastRef_nil,
          setNext_ok found]
        exact setHead_ok kept _
      · have chain := splits.onward
        rw [headIs] at chain
        exact chain.frame fun ref member => Memory.set_cells_of_ne _ _ (inBack ref member)
  · have foundPrev := reached.last_next
    have apart := splits.nodup
    rw [List.append_assoc, List.singleton_append] at apart
    obtain ⟨once, notBehind, _⟩ := once_of_nodup apart
    have prevNe : prev ≠ binding := inFront prev (by simp)
    have headIs : ∃ head, notifier.bindings = some head := by
      cases init with
      | nil => exact ⟨_, reached.1⟩
      | cons cell rest => exact ⟨_, reached.1⟩
    obtain ⟨head, headIs⟩ := headIs
    cases middle with
    | none =>
      have empty : back = [] := by
        have chain := splits.onward
        cases back with
        | nil => rfl
        | cons cell rest => cases chain.1
      subst empty
      refine ⟨{ dispatch with bindings := dispatch.bindings.set prev ⟨prevData, some binding⟩ },
        ?_, ⟨notifier, foundEvent, segment_append.mpr
          ⟨some binding, reached.setNext_last once _, rfl, none, ?_, rfl⟩⟩, ?_⟩
      · simp only [insertBinding, Memory.read_of_some foundEvent, Exec.ok_bind, headIs,
          lastRef_concat, Memory.read_of_some foundPrev, setNext_ok foundPrev]
      · exact (Memory.set_cells_of_ne _ _ prevNe.symm).trans found
      · exact edits_bindings (by simp) _ _
    | some next =>
      let pointed := { dispatch with bindings := dispatch.bindings.set binding ⟨data, some next⟩ }
      have keptPrev : pointed.bindings.cells prev = some ⟨prevData, some next⟩ :=
        (Memory.set_cells_of_ne _ _ prevNe).trans foundPrev
      refine ⟨{ pointed with bindings := pointed.bindings.set prev ⟨prevData, some binding⟩ },
        ?_, ⟨notifier, foundEvent, segment_append.mpr
          ⟨some binding, ?_, rfl, some next, ?_, ?_⟩⟩, ?_⟩
      · simp only [insertBinding, Memory.read_of_some foundEvent, Exec.ok_bind, headIs,
          lastRef_concat, Memory.read_of_some foundPrev, setNext_ok found]
        exact setNext_ok keptPrev _
      · have kept : Segment pointed.bindings notifier.bindings (init ++ [(prev, prevData)])
            (some next) :=
          reached.frame fun ref member => Memory.set_cells_of_ne _ _ (inFront ref member)
        exact kept.setNext_last once _
      · exact (Memory.set_cells_of_ne _ _ prevNe.symm).trans (Memory.set_cells_self _ found)
      · refine splits.onward.frame fun ref member => ?_
        rw [Memory.set_cells_of_ne _ _ (by rintro rfl; exact notBehind member)]
        exact Memory.set_cells_of_ne _ _ (inBack ref member)
      · exact (edits_bindings (List.mem_cons_self) _ _).trans (edits_bindings (by simp) _ _)

end SpudLib.Dispatcher
