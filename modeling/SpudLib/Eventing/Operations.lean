import SpudLib.Eventing.Bindings

/-!
# Binding, unbinding and sweeping

What the functions that callers and the dispatch loop use do to the binding
list of their event, as functions on lists.
-/

namespace SpudLib.Dispatcher

open Link

variable {Data : Type}

def callbacks (cells : List (Nat × BindingData)) : List Nat := cells.map fun cell => cell.2.cb

/-- The list after binding `cb`: an old binding of it keeps its place. -/
def boundCells (cb arg fresh : Nat) : List (Nat × BindingData) → List (Nat × BindingData)
  | [] => [(fresh, ⟨cb, arg, false, false⟩)]
  | (binding, data) :: rest =>
      if data.cb = cb then (binding, ⟨cb, arg, false, data.normalBound⟩) :: rest
      else (binding, data) :: boundCells cb arg fresh rest

def unboundCells (cb : Nat) (cells : List (Nat × BindingData)) : List (Nat × BindingData) :=
  cells.eraseP fun cell => cell.2.cb = cb

def flaggedCells (cb : Nat) : List (Nat × BindingData) → List (Nat × BindingData)
  | [] => []
  | (binding, data) :: rest =>
      if data.cb = cb then (binding, { data with unbound := true }) :: rest
      else (binding, data) :: flaggedCells cb rest

def settledCells (cells : List (Nat × BindingData)) : List (Nat × BindingData) :=
  cells.map fun cell => (cell.1, { cell.2 with normalBound := true })

def sweptCells (cells : List (Nat × BindingData)) : List (Nat × BindingData) :=
  cells.filter fun cell => !cell.2.unbound

@[simp] theorem callbacks_nil : callbacks [] = [] := rfl

@[simp] theorem callbacks_cons (binding : Nat) (data : BindingData)
    (cells : List (Nat × BindingData)) :
    callbacks ((binding, data) :: cells) = data.cb :: callbacks cells := rfl

@[simp] theorem callbacks_append (front back : List (Nat × BindingData)) :
    callbacks (front ++ back) = callbacks front ++ callbacks back := List.map_append

theorem mem_callbacks {cb : Nat} {cells : List (Nat × BindingData)} :
    cb ∈ callbacks cells ↔ ∃ cell ∈ cells, cell.2.cb = cb := List.mem_map

theorem callbacks_boundCells (cb arg fresh : Nat) (cells : List (Nat × BindingData)) :
    callbacks (boundCells cb arg fresh cells) =
      if cb ∈ callbacks cells then callbacks cells else callbacks cells ++ [cb] := by
  induction cells with
  | nil => simp [boundCells]
  | cons cell rest inductionHypothesis =>
    obtain ⟨binding, data⟩ := cell
    by_cases same : data.cb = cb
    · simp [boundCells, same]
    · have different : cb ≠ data.cb := fun equal => same equal.symm
      by_cases later : cb ∈ callbacks rest <;>
        simp [boundCells, same, different, inductionHypothesis, later]

theorem mem_boundCells {cb arg fresh : Nat} {cell : Nat × BindingData}
    {cells : List (Nat × BindingData)} (member : cell ∈ boundCells cb arg fresh cells) :
    cell ∈ cells ∨ cell.2.unbound = false := by
  induction cells with
  | nil =>
    rw [boundCells, List.mem_singleton] at member
    exact .inr (by rw [member])
  | cons first rest inductionHypothesis =>
    obtain ⟨binding, data⟩ := first
    rw [boundCells] at member
    split at member
    · rcases List.mem_cons.mp member with rfl | later
      · exact .inr rfl
      · exact .inl (List.mem_cons_of_mem _ later)
    · rcases List.mem_cons.mp member with rfl | later
      · exact .inl List.mem_cons_self
      · exact (inductionHypothesis later).imp_left (List.mem_cons_of_mem _)

@[simp] theorem callbacks_flaggedCells (cb : Nat) (cells : List (Nat × BindingData)) :
    callbacks (flaggedCells cb cells) = callbacks cells := by
  induction cells with
  | nil => rfl
  | cons cell rest inductionHypothesis =>
    obtain ⟨binding, data⟩ := cell
    by_cases same : data.cb = cb <;> simp [flaggedCells, same, inductionHypothesis]

@[simp] theorem callbacks_settledCells (cells : List (Nat × BindingData)) :
    callbacks (settledCells cells) = callbacks cells := by
  simp [callbacks, settledCells, Function.comp_def]

theorem callbacks_unboundCells_sublist (cb : Nat) (cells : List (Nat × BindingData)) :
    (callbacks (unboundCells cb cells)).Sublist (callbacks cells) :=
  List.eraseP_sublist.map _

theorem callbacks_sweptCells_sublist (cells : List (Nat × BindingData)) :
    (callbacks (sweptCells cells)).Sublist (callbacks cells) :=
  List.filter_sublist.map _

theorem split_at_callback {cb : Nat} {cells : List (Nat × BindingData)}
    (bound : cb ∈ callbacks cells) :
    ∃ front binding data back, cells = front ++ (binding, data) :: back ∧
      (∀ cell ∈ front, cell.2.cb ≠ cb) ∧ data.cb = cb := by
  induction cells with
  | nil => cases bound
  | cons cell rest inductionHypothesis =>
    obtain ⟨binding, data⟩ := cell
    by_cases same : data.cb = cb
    · refine ⟨[], binding, data, rest, rfl, ?_, same⟩
      intro cell member
      cases member
    · have later : cb ∈ callbacks rest := by
        rcases List.mem_cons.mp bound with here | there
        · exact absurd here.symm same
        · exact there
      obtain ⟨front, found, foundData, back, rfl, absent, matching⟩ := inductionHypothesis later
      refine ⟨(binding, data) :: front, found, foundData, back, rfl, ?_, matching⟩
      intro cell member
      rcases List.mem_cons.mp member with rfl | member
      · exact same
      · exact absent cell member

section Split

variable {cb arg fresh binding : Nat} {data : BindingData} {front back : List (Nat × BindingData)}

theorem boundCells_missing {cells : List (Nat × BindingData)}
    (absent : ∀ cell ∈ cells, cell.2.cb ≠ cb) :
    boundCells cb arg fresh cells = cells ++ [(fresh, ⟨cb, arg, false, false⟩)] := by
  induction cells with
  | nil => rfl
  | cons cell rest inductionHypothesis =>
    have different : cell.2.cb ≠ cb := absent cell (by simp)
    have later := inductionHypothesis fun cell member => absent cell (by simp [member])
    simp [boundCells, different, later]

theorem boundCells_found (absent : ∀ cell ∈ front, cell.2.cb ≠ cb) (matching : data.cb = cb) :
    boundCells cb arg fresh (front ++ (binding, data) :: back) =
      front ++ (binding, ⟨cb, arg, false, data.normalBound⟩) :: back := by
  induction front with
  | nil => simp [boundCells, matching]
  | cons cell rest inductionHypothesis =>
    have different : cell.2.cb ≠ cb := absent cell (by simp)
    have later := inductionHypothesis fun cell member => absent cell (by simp [member])
    simp [boundCells, different, later]

theorem unboundCells_found (absent : ∀ cell ∈ front, cell.2.cb ≠ cb) (matching : data.cb = cb) :
    unboundCells cb (front ++ (binding, data) :: back) = front ++ back := by
  rw [unboundCells, List.eraseP_append_right _ (by simpa using absent)]
  simp [matching]

theorem flaggedCells_found (absent : ∀ cell ∈ front, cell.2.cb ≠ cb) (matching : data.cb = cb) :
    flaggedCells cb (front ++ (binding, data) :: back) =
      front ++ (binding, { data with unbound := true }) :: back := by
  induction front with
  | nil => simp [flaggedCells, matching]
  | cons cell rest inductionHypothesis =>
    have different : cell.2.cb ≠ cb := absent cell (by simp)
    have later := inductionHypothesis fun cell member => absent cell (by simp [member])
    simp [flaggedCells, different, later]

end Split

variable {dispatch : Dispatcher Data} {event : Nat} {cells : List (Nat × BindingData)}

theorem Lists.set_data {binding : Nat} {data : BindingData} {front back : List (Nat × BindingData)}
    (lists : dispatch.Lists event (front ++ (binding, data) :: back)) (change : BindingData) :
    ∃ next, dispatch.bindings.cells binding = some ⟨data, next⟩ ∧
      Dispatcher.Lists
        { dispatch with bindings := dispatch.bindings.set binding ⟨change, next⟩ } event
        (front ++ (binding, change) :: back) := by
  obtain ⟨notifier, foundEvent, chain⟩ := lists
  obtain ⟨next, found, changed⟩ := Chain.set_data front chain change
  exact ⟨next, found, notifier, foundEvent, changed⟩

section Bind

variable {cb : Nat}

theorem lsEventBind_refused (arg : Nat) (lists : dispatch.Lists event cells)
    (absent : ∀ cell ∈ cells, cell.2.cb ≠ cb) :
    dispatch.lsEventBind event cb arg false = .ok (false, dispatch) := by
  simp [lsEventBind, removeBinding_missing lists absent]

theorem lsEventBind_missing (arg : Nat) (lists : dispatch.Lists event cells)
    (absent : ∀ cell ∈ cells, cell.2.cb ≠ cb) :
    ∃ after, dispatch.lsEventBind event cb arg true = .ok (true, after) ∧
      after.Lists event (cells ++ [(dispatch.bindings.fresh, ⟨cb, arg, false, false⟩)]) ∧
      Edits dispatch event (dispatch.bindings.fresh :: refs cells) after := by
  let fresh := dispatch.bindings.fresh
  let cell : Link BindingData := ⟨⟨cb, arg, false, false⟩, none⟩
  let larger := { dispatch with bindings := dispatch.bindings.alloc cell }
  obtain ⟨notifier, found, chain⟩ := lists
  have outside : fresh ∉ refs cells := fun member =>
    Nat.lt_irrefl _ (chain.lt_fresh fresh member)
  have splits : larger.Splits event cells none [] := by
    refine ⟨⟨notifier, found, chain.frame ?_⟩, rfl, by simpa using chain.nodup⟩
    intro ref member
    exact Memory.alloc_cells_of_ne _ _ (Nat.ne_of_lt (chain.lt_fresh ref member))
  obtain ⟨after, inserted, bound, edits⟩ := insertBinding_ok splits
    (Memory.alloc_cells_self dispatch.bindings cell) (by simpa using outside)
  have grown : Edits dispatch event (fresh :: refs cells) larger :=
    ⟨rfl, fun _ _ => rfl, fun binding foreign =>
      Memory.alloc_cells_of_ne _ _ fun same => foreign (same ▸ List.mem_cons_self), Nat.le_succ _⟩
  refine ⟨after, ?_, bound, grown.trans edits⟩
  simp only [lsEventBind, removeBinding_missing ⟨notifier, found, chain⟩ absent, Exec.ok_bind,
    Bool.not_true, Bool.false_eq_true, if_false]
  rw [show larger.insertBinding event fresh (lastRef cells) = .ok after from inserted]
  rfl

theorem lsEventBind_found (arg : Nat) (granted : Bool) {binding : Nat} {data : BindingData}
    {front back : List (Nat × BindingData)}
    (lists : dispatch.Lists event (front ++ (binding, data) :: back))
    (absent : ∀ cell ∈ front, cell.2.cb ≠ cb) (matching : data.cb = cb) :
    ∃ after, dispatch.lsEventBind event cb arg granted = .ok (true, after) ∧
      after.Lists event (front ++ (binding, ⟨cb, arg, false, data.normalBound⟩) :: back) ∧
      Edits dispatch event (binding :: refs front) after := by
  obtain ⟨removed, unlinked, ⟨middle, splits⟩, kept, edits⟩ :=
    removeBinding_found lists absent matching
  obtain ⟨once, notBehind, _⟩ := once_of_nodup lists.nodup
  let cleared : BindingData := ⟨cb, arg, false, data.normalBound⟩
  let written := { removed with bindings := removed.bindings.set binding ⟨cleared, none⟩ }
  have resplit : written.Splits event front middle back := by
    obtain ⟨notifier, foundEvent, reached⟩ := splits.reached
    refine ⟨⟨notifier, foundEvent, reached.frame ?_⟩, splits.onward.frame ?_, splits.nodup⟩
    · intro ref member
      exact Memory.set_cells_of_ne _ _ (by rintro rfl; exact once member)
    · intro ref member
      exact Memory.set_cells_of_ne _ _ (by rintro rfl; exact notBehind member)
  obtain ⟨after, inserted, bound, reinserted⟩ := insertBinding_ok resplit
    (Memory.set_cells_self _ kept) (by simp [once, notBehind])
  refine ⟨after, ?_, bound, edits.trans
    ((edits_bindings List.mem_cons_self _ _).trans reinserted)⟩
  simp only [lsEventBind, unlinked, Exec.ok_bind, Memory.read_of_some kept,
    Memory.modify_of_some kept]
  rw [show Dispatcher.insertBinding written event binding (lastRef front) = .ok after from inserted]
  rfl

end Bind

section Unbind

variable {cb : Nat}

theorem lsEventUnbind_missing (idle : dispatch.running ≠ some event)
    (lists : dispatch.Lists event cells) (absent : ∀ cell ∈ cells, cell.2.cb ≠ cb) :
    dispatch.lsEventUnbind event cb = .ok dispatch := by
  simp [lsEventUnbind, idle, removeBinding_missing lists absent]

theorem lsEventUnbind_found {binding : Nat} {data : BindingData}
    {front back : List (Nat × BindingData)} (idle : dispatch.running ≠ some event)
    (lists : dispatch.Lists event (front ++ (binding, data) :: back))
    (absent : ∀ cell ∈ front, cell.2.cb ≠ cb) (matching : data.cb = cb) :
    ∃ after, dispatch.lsEventUnbind event cb = .ok after ∧ after.Lists event (front ++ back) ∧
      Edits dispatch event (binding :: refs front) after ∧ after.bindings.Freed binding := by
  obtain ⟨removed, unlinked, ⟨middle, splits⟩, kept, edits⟩ :=
    removeBinding_found lists absent matching
  obtain ⟨once, notBehind, _⟩ := once_of_nodup lists.nodup
  refine ⟨{ removed with bindings := removed.bindings.erase binding }, ?_, ?_,
    edits.trans (edits_erase List.mem_cons_self _), Memory.freed_erase kept⟩
  · simp only [lsEventUnbind, if_pos idle, unlinked, Exec.ok_bind]
    exact freeBinding_ok kept
  · obtain ⟨notifier, foundEvent, chain⟩ := splits.lists
    refine ⟨notifier, foundEvent, chain.frame ?_⟩
    intro ref member
    refine Memory.erase_cells_of_ne _ ?_
    rintro rfl
    rw [refs_append, List.mem_append] at member
    exact member.elim once notBehind

theorem flagUnboundLoop_found {bound head binding : Nat} {data : BindingData}
    {passed back : List (Nat × BindingData)}
    (chain : Chain dispatch.bindings (some head) (passed ++ (binding, data) :: back))
    (enough : passed.length < bound) (absent : ∀ cell ∈ passed, cell.2.cb ≠ cb)
    (matching : data.cb = cb) :
    flagUnboundLoop cb bound head dispatch =
      dispatch.modifyBinding binding fun data => { data with unbound := true } := by
  induction passed generalizing bound head with
  | nil =>
    obtain ⟨here, next, found, _⟩ := chain
    cases here
    cases bound with
    | zero => simp at enough
    | succ bound => simp [flagUnboundLoop, Memory.read_of_some found, matching]
  | cons cell rest inductionHypothesis =>
    obtain ⟨other, otherData⟩ := cell
    obtain ⟨here, next, found, onward⟩ := chain
    cases here
    have different : otherData.cb ≠ cb := absent (head, otherData) (by simp)
    have headIs := @Chain.start_eq_head _ _ _ (rest ++ (binding, data) :: back) onward
    cases bound with
    | zero => simp at enough
    | succ bound =>
      cases next with
      | none => cases rest <;> cases headIs
      | some next =>
        simp only [flagUnboundLoop, Memory.read_of_some found, Exec.ok_bind, different, if_false]
        exact inductionHypothesis onward (by simpa using enough)
          fun cell member => absent cell (by simp [member])

theorem lsEventUnbind_running {binding : Nat} {data : BindingData}
    {front back : List (Nat × BindingData)} (running : dispatch.running = some event)
    (lists : dispatch.Lists event (front ++ (binding, data) :: back))
    (absent : ∀ cell ∈ front, cell.2.cb ≠ cb) (matching : data.cb = cb) :
    ∃ after, dispatch.lsEventUnbind event cb = .ok after ∧
      after.Lists event (front ++ (binding, { data with unbound := true }) :: back) ∧
      Edits dispatch event [binding] after := by
  obtain ⟨next, found, flagged⟩ := lists.set_data { data with unbound := true }
  refine ⟨_, ?_, flagged, edits_bindings (by simp) _ _⟩
  obtain ⟨notifier, foundEvent, chain⟩ := lists
  have headIs := chain.start_eq_head
  have enough : front.length < dispatch.bindings.fresh := by
    have bounded := chain.length_le_fresh
    simp only [List.length_append, List.length_cons] at bounded
    omega
  obtain ⟨head, headIs⟩ : ∃ head, notifier.bindings = some head := by
    cases front with
    | nil => exact ⟨_, headIs⟩
    | cons cell rest => exact ⟨_, headIs⟩
  rw [headIs] at chain
  simp only [lsEventUnbind, if_neg (not_not.mpr running), Memory.read_of_some foundEvent,
    Exec.ok_bind, headIs]
  rw [flagUnboundLoop_found chain enough absent matching, modifyBinding_ok found]

end Unbind

section Moments

theorem setBindStatusLoop_ok {bound : Nat} {cur : Option Nat}
    (front : List (Nat × BindingData)) {back : List (Nat × BindingData)}
    (lists : dispatch.Lists event (front ++ back)) (chain : Chain dispatch.bindings cur back)
    (enough : back.length ≤ bound) :
    ∃ after, setBindStatusLoop bound cur dispatch = .ok after ∧
      after.Lists event (front ++ settledCells back) ∧ Edits dispatch event (refs back) after := by
  induction back generalizing bound cur front dispatch with
  | nil =>
    cases chain
    refine ⟨dispatch, ?_, lists, Edits.refl _ _ _⟩
    cases bound <;> rfl
  | cons cell rest inductionHypothesis =>
    obtain ⟨binding, data⟩ := cell
    obtain ⟨rfl, next, found, onward⟩ := chain
    cases bound with
    | zero => simp at enough
    | succ bound =>
      obtain ⟨_, foundAgain, settled⟩ := lists.set_data { data with normalBound := true }
      cases found.symm.trans foundAgain
      obtain ⟨_, notBehind, _⟩ := once_of_nodup lists.nodup
      have still : Chain (dispatch.bindings.set binding ⟨{ data with normalBound := true }, next⟩)
          next rest :=
        onward.frame fun ref member =>
          Memory.set_cells_of_ne _ _ (by rintro rfl; exact notBehind member)
      obtain ⟨after, looped, done, edits⟩ :=
        inductionHypothesis (front ++ [(binding, { data with normalBound := true })])
          (by simpa using settled) still (by simpa using enough)
      refine ⟨after, ?_, by simpa [settledCells] using done, ?_⟩
      · simp only [setBindStatusLoop, modifyBinding_ok found, Exec.ok_bind,
          Memory.read_of_some (Memory.set_cells_self _ found)]
        exact looped
      · exact (edits_bindings (by simp) _ _).trans (edits.mono (List.subset_cons_self _ _))

theorem setBindStatus_ok (lists : dispatch.Lists event cells) :
    ∃ after, dispatch.setBindStatus event = .ok after ∧
      after.Lists event (settledCells cells) ∧ Edits dispatch event (refs cells) after := by
  obtain ⟨notifier, found, chain⟩ := lists
  simp only [setBindStatus, Memory.read_of_some found, Exec.ok_bind]
  exact setBindStatusLoop_ok [] ⟨notifier, found, chain⟩ chain chain.length_le_fresh

theorem processPendingUnbindsLoop_ok {bound : Nat} {cur : Option Nat}
    (front : List (Nat × BindingData)) {back : List (Nat × BindingData)}
    (splits : dispatch.Splits event front cur back) (enough : back.length ≤ bound) :
    ∃ after, processPendingUnbindsLoop event bound cur (lastRef front) dispatch = .ok after ∧
      after.Lists event (front ++ sweptCells back) ∧
      Edits dispatch event (refs (front ++ back)) after ∧
      ∀ cell ∈ back, cell.2.unbound = true → after.bindings.Freed cell.1 := by
  induction back generalizing bound cur front dispatch with
  | nil =>
    have ended := splits.onward
    cases ended
    refine ⟨dispatch, ?_, splits.lists, Edits.refl _ _ _, fun cell member => nomatch member⟩
    cases bound <;> rfl
  | cons cell rest inductionHypothesis =>
    obtain ⟨binding, data⟩ := cell
    have lists := splits.lists
    obtain ⟨rfl, next, found, onward⟩ := splits.onward
    obtain ⟨once, notBehind, nodup⟩ := once_of_nodup splits.nodup
    cases bound with
    | zero => simp at enough
    | succ bound =>
      simp only [processPendingUnbindsLoop, Memory.read_of_some found, Exec.ok_bind]
      cases marked : data.unbound with
      | false =>
        have shifted : dispatch.Splits event (front ++ [(binding, data)]) next rest := by
          obtain ⟨notifier, foundEvent, reached⟩ := splits.reached
          refine ⟨⟨notifier, foundEvent, ?_⟩, onward, by simpa using splits.nodup⟩
          exact segment_append.mpr ⟨some binding, reached, rfl, next, found, rfl⟩
        obtain ⟨after, looped, done, edits, gone⟩ :=
          inductionHypothesis _ shifted (by simpa using enough)
        refine ⟨after, ?_, by simpa [sweptCells, marked] using done, by simpa using edits, ?_⟩
        · simpa using looped
        · intro cell member flagged
          rcases List.mem_cons.mp member with rfl | member
          · rw [marked] at flagged
            cases flagged
          · exact gone cell member flagged
      | true =>
        obtain ⟨_, joined, foundAgain, relinked, rejoined, kept, edits⟩ := unlink_ok lists
        cases found.symm.trans foundAgain
        let freed := { joined with bindings := joined.bindings.erase binding }
        have apart : freed.Splits event front next rest := by
          obtain ⟨notifier, foundEvent, reached⟩ := rejoined.reached
          refine ⟨⟨notifier, foundEvent, reached.frame ?_⟩, rejoined.onward.frame ?_,
            rejoined.nodup⟩
          · intro ref member
            exact Memory.erase_cells_of_ne _ (by rintro rfl; exact once member)
          · intro ref member
            exact Memory.erase_cells_of_ne _ (by rintro rfl; exact notBehind member)
        obtain ⟨after, looped, done, swept, gone⟩ :=
          inductionHypothesis _ apart (by simpa using enough)
        refine ⟨after, ?_, by simpa [sweptCells, marked] using done, ?_, ?_⟩
        · simp only [Bool.not_true, Bool.false_eq_true, if_false, relinked, Exec.ok_bind,
            freeBinding_ok kept]
          exact looped
        · refine (edits.mono ?_).trans ((edits_erase (by simp) _).trans (swept.mono ?_))
          · rw [refs_append]
            exact List.subset_append_left _ _
          · intro ref member
            rw [refs_append, List.mem_append] at member
            simp [member.imp_right Or.inr]
        · intro cell member flagged
          rcases List.mem_cons.mp member with rfl | member
          · refine swept.freed (Memory.freed_erase kept) ?_
            rw [refs_append, List.mem_append]
            exact fun inside => inside.elim once notBehind
          · exact gone cell member flagged

theorem processPendingUnbinds_ok (lists : dispatch.Lists event cells) :
    ∃ after, dispatch.processPendingUnbinds event = .ok after ∧
      after.Lists event (sweptCells cells) ∧ Edits dispatch event (refs cells) after ∧
      ∀ cell ∈ cells, cell.2.unbound = true → after.bindings.Freed cell.1 := by
  obtain ⟨notifier, found, chain⟩ := lists
  simp only [processPendingUnbinds, Memory.read_of_some found, Exec.ok_bind]
  exact processPendingUnbindsLoop_ok [] ⟨⟨notifier, found, rfl⟩, chain, chain.nodup⟩
    chain.length_le_fresh

end Moments

end SpudLib.Dispatcher
