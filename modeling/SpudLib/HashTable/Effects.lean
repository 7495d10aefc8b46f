import SpudLib.HashTable.Runs

/-!
# What a call does to the content of a table

For every call that returns: the nodes whose slots it ends, the slot it stores
and the cleaners it calls.  Nothing is assumed of the hash and the comparison,
and any array of buckets may be granted or refused.
-/

namespace SpudLib

variable {Key Value : Type}

/-- Which nodes have their slots ended, and the slot that is stored. -/
structure SlotEffect (Key Value : Type) where
  ends : Nat → Bool
  stored : Option (Slot Key Value)

def Slot.charge (slot : Slot Key Value) (replace destroyKey : Bool) :
    Option (CleanerCall Key Value) :=
  slot.cleaner.map fun cleaner => ⟨cleaner, replace, destroyKey, slot.key, slot.value⟩

theorem HTable.clean_eq_charge (p : HNode Key Value) (replace destroyKey : Bool) :
    clean p replace destroyKey = (p.slot.charge replace destroyKey).toList := by
  unfold clean Slot.charge HNode.slot
  cases p.cleaner <;> rfl

/-- What a call answers: whether it succeeded, the cleaners it called, the table it left. -/
structure Answer (Key Value : Type) where
  accepted : Bool
  cleaned : List (CleanerCall Key Value)
  table : HTable Key Value

namespace HTable

def holder (tbl : HTable Key Value) (key : Key) : Option Nat :=
  match tbl.lsHtableGetNode key with
  | .ok found => found.map HNode.node
  | .error _ => none

structure Addressed (tbl : HTable Key Value) : Prop where
  nodup : (tbl.slots.map Slot.node).Nodup
  bounded : ∀ slot ∈ tbl.slots, slot.node < tbl.fresh

end HTable

namespace TableCall

def answer [DecidableEq Key] (tbl : HTable Key Value) :
    TableCall Key Value → Exec (Answer Key Value)
  | .put key value cleaner calloc malloc => do
      let answer ← tbl.lsHtablePut key value cleaner calloc malloc
      pure ⟨answer.1, answer.2.1, answer.2.2⟩
  | .get key => do
      let _ ← tbl.lsHtableGet key
      pure ⟨true, [], tbl⟩
  | .getNode key => do
      let _ ← tbl.lsHtableGetNode key
      pure ⟨true, [], tbl⟩
  | .remove key => do
      let answer ← tbl.lsHtableRemove key
      pure ⟨true, answer.1, answer.2⟩
  | .removeNode node => do
      let answer ← tbl.lsHtableRemoveNode node
      pure ⟨true, answer.1, answer.2⟩
  | .putValue node value cleaner => do
      let answer ← tbl.lsHnodePutValue node value cleaner
      pure ⟨true, answer.1, answer.2⟩
  | .clear => pure ⟨true, tbl.lsHtableClear.1, tbl.lsHtableClear.2⟩

/-- What the call is to end and to store in a table. -/
def effect (tbl : HTable Key Value) (accepted : Bool) :
    TableCall Key Value → SlotEffect Key Value
  | .put key value cleaner _ _ =>
      if accepted then
        { ends := fun node => tbl.holder key = some node
          stored := some ⟨(tbl.holder key).getD tbl.fresh, key, value, cleaner⟩ }
      else ⟨fun _ => false, none⟩
  | .get _ | .getNode _ => ⟨fun _ => false, none⟩
  | .remove key => ⟨fun node => tbl.holder key = some node, none⟩
  | .removeNode target => ⟨fun node => node = target, none⟩
  | .putValue target value cleaner =>
      { ends := fun node => node = target
        stored := (tbl.slots.find? fun slot => slot.node = target).map fun slot =>
          ⟨target, slot.key, value, cleaner⟩ }
  | .clear => ⟨fun _ => true, none⟩

/-- `ls_hnode_put_value` calls no cleaner for a value that is NULL. -/
def spares (slot : Slot Key Value) : TableCall Key Value → Bool
  | .putValue _ _ _ => slot.value.isNone
  | _ => false

/-- No array of `2 ^ 30` or more buckets is granted. -/
def Refuses : TableCall Key Value → Prop
  | .put _ _ _ calloc _ => ∀ size, 2 ^ 30 ≤ size → calloc size = false
  | _ => True

end TableCall

namespace SlotEffect

/-- The call due to the cleaner of a slot that ends: its key stays when a slot
is stored in its place, and its key pointer leaves unless that slot has it too. -/
def due [DecidableEq Key] (effect : SlotEffect Key Value) (call : TableCall Key Value)
    (slot : Slot Key Value) : Option (CleanerCall Key Value) :=
  if call.spares slot then none
  else slot.charge effect.stored.isSome (effect.stored.all fun new => new.key ≠ slot.key)

/-- The table after has the slots that did not end and the one that was stored,
which takes the place of the only one that ended or has a new address. -/
structure On (effect : SlotEffect Key Value) (before after : HTable Key Value) : Prop where
  content : after.slots.Perm
    (before.slots.filter (fun slot => !effect.ends slot.node) ++ effect.stored.toList)
  fresh : before.fresh ≤ after.fresh
  bounded : ∀ new, effect.stored = some new → new.node < after.fresh
  single : ∀ new, effect.stored = some new →
    ∀ old ∈ before.slots, effect.ends old.node = true ↔ old.node = new.node

end SlotEffect

theorem replace_slot_perm {slots : List (Slot Key Value)} (nodup : (slots.map Slot.node).Nodup)
    {old : Slot Key Value} (member : old ∈ slots) (new : Slot Key Value) :
    (slots.map fun slot => if slot.node = old.node then new else slot).Perm
      (slots.filter (fun slot => !decide (slot.node = old.node)) ++ [new]) := by
  obtain ⟨front, back, rfl⟩ := List.append_of_mem member
  rw [List.map_append, List.map_cons, List.nodup_middle, List.nodup_cons, List.mem_append,
    not_or] at nodup
  have elsewhere : ∀ part : List (Slot Key Value), old.node ∉ part.map Slot.node →
      ∀ slot ∈ part, slot.node ≠ old.node := by
    intro part absent slot inside same
    exact absent (same ▸ List.mem_map_of_mem inside)
  have kept : ∀ part : List (Slot Key Value), old.node ∉ part.map Slot.node →
      (part.map fun slot => if slot.node = old.node then new else slot) = part ∧
        part.filter (fun slot => !decide (slot.node = old.node)) = part := by
    intro part absent
    constructor
    · refine (List.map_congr_left fun slot inside => ?_).trans (List.map_id part)
      rw [if_neg (elsewhere part absent slot inside), id]
    · refine List.filter_eq_self.mpr fun slot inside => ?_
      simp [elsewhere part absent slot inside]
  rw [List.map_append, List.map_cons, if_pos rfl, List.filter_append, List.filter_cons_of_neg
    (by simp), (kept front nodup.1.1).1, (kept back nodup.1.2).1, (kept front nodup.1.1).2,
    (kept back nodup.1.2).2]
  exact List.perm_middle.trans (List.perm_append_singleton _ _).symm

theorem drop_slot_perm {slots rest : List (Slot Key Value)} {old : Slot Key Value}
    (nodup : (slots.map Slot.node).Nodup) (perm : slots.Perm (old :: rest)) :
    rest.Perm (slots.filter fun slot => !decide (slot.node = old.node)) ∧
      [old].Perm (slots.filter fun slot => decide (slot.node = old.node)) := by
  have apart := (perm.map Slot.node).nodup_iff.mp nodup
  rw [List.map_cons, List.nodup_cons] at apart
  have elsewhere : ∀ slot ∈ rest, slot.node ≠ old.node := by
    intro slot inside same
    exact apart.1 (same ▸ List.mem_map_of_mem inside)
  constructor
  · refine List.Perm.trans ?_ (perm.filter _).symm
    rw [List.filter_cons_of_neg (by simp), List.filter_eq_self.mpr]
    intro slot inside
    simp [elsewhere slot inside]
  · refine List.Perm.trans ?_ (perm.filter _).symm
    rw [List.filter_cons_of_pos (by simp), List.filter_eq_nil_iff.mpr]
    intro slot inside
    simp [elsewhere slot inside]

theorem filter_slot_eq {slots : List (Slot Key Value)} (nodup : (slots.map Slot.node).Nodup)
    {old : Slot Key Value} (member : old ∈ slots) :
    slots.filter (fun slot => decide (slot.node = old.node)) = [old] := by
  obtain ⟨front, back, rfl⟩ := List.append_of_mem member
  exact List.perm_singleton.mp (drop_slot_perm nodup List.perm_middle).2.symm

namespace HTable

variable {tbl after : HTable Key Value} {key : Key} {value : Option Value} {cleaner : Option Nat}

theorem findNode_put (tbl : HTable Key Value) (key : Key) :
    tbl.findNode key (asInt (tbl.bucketFromKhash (tbl.hash key))) (tbl.hash key) =
      tbl.lsHtableGetNode key := by
  by_cases wrapped : asInt (tbl.bucketFromKhash (tbl.hash key)) < 0
  · simp [lsHtableGetNode, findNode, wrapped]
  · simp [lsHtableGetNode, findNode, wrapped]

theorem chainAt_mem {bucket : Int} {chain : List (HNode Key Value)}
    (reached : tbl.chainAt bucket = .ok chain) : ∀ p ∈ chain, p ∈ tbl.nodes := by
  intro p member
  unfold chainAt at reached
  split at reached
  next inside =>
    cases reached
    exact mem_nodes.mpr ⟨_, member⟩
  next => cases reached

theorem getNode_mem {p : HNode Key Value} (found : tbl.lsHtableGetNode key = .ok (some p)) :
    p ∈ tbl.nodes := by
  obtain ⟨chain, reached, searched⟩ := Exec.bind_eq_ok.mp found
  apply chainAt_mem reached
  exact List.mem_of_find?_eq_some (Except.ok.inj searched)

theorem getNode_of_holder {node : Nat} (holds : tbl.holder key = some node) :
    ∃ p, tbl.lsHtableGetNode key = .ok (some p) ∧ p.node = node := by
  unfold holder at holds
  split at holds
  next found searched =>
    obtain ⟨p, rfl, same⟩ := Option.map_eq_some_iff.mp holds
    exact ⟨p, searched, same⟩
  next => cases holds

theorem resizeHashtable_slots {buckets : Nat} {positive : 0 < buckets} {calloc : Nat → Bool}
    {done : Bool} (resized : tbl.resizeHashtable buckets positive calloc = (done, after)) :
    after.slots.Perm tbl.slots ∧ after.fresh = tbl.fresh := by
  unfold resizeHashtable at resized
  split at resized
  next =>
    cases resized
    exact ⟨List.Perm.refl _, rfl⟩
  next =>
    cases resized
    have perm := (foldl_relinkNode_perm positive tbl.nodes fun _ => []).map HNode.slot
    rw [List.flatMap_eq_nil_iff.mpr (fun _ _ => rfl), List.append_nil, List.map_map] at perm
    exact ⟨perm, rfl⟩

theorem putNew_slots {khash : UInt32} {malloc accepted : Bool}
    (put : tbl.putNew key value cleaner khash malloc = (accepted, after)) :
    accepted = false ∧ after = tbl ∨
      accepted = true ∧ after.slots.Perm (⟨tbl.fresh, key, value, cleaner⟩ :: tbl.slots) ∧
        after.fresh = tbl.fresh + 1 := by
  unfold putNew at put
  split at put
  next =>
    cases put
    exact .inl ⟨rfl, rfl⟩
  next =>
    cases put
    obtain ⟨others, before, replaced⟩ := tbl.nodes_update (tbl.bucketFromKhash khash)
    let bucket := tbl.bucketFromKhash khash
    let added : HNode Key Value := ⟨tbl.fresh, key, value, asInt bucket, khash, cleaner⟩
    have grown := (replaced (added :: tbl.buckets bucket)).trans (before.symm.cons added)
    exact .inr ⟨rfl, grown.map HNode.slot, rfl⟩

theorem unchain_perm {node : Nat} {chain rest : List (HNode Key Value)}
    (unchained : unchain node chain = .ok rest) :
    ∃ p, p.node = node ∧ chain.Perm (p :: rest) := by
  induction chain generalizing rest with
  | nil => cases unchained
  | cons q tail inductionHypothesis =>
    rw [unchain] at unchained
    split at unchained
    next same =>
      cases unchained
      exact ⟨q, same, List.Perm.refl _⟩
    next =>
      obtain ⟨shorter, onward, kept⟩ := Exec.bind_eq_ok.mp unchained
      cases kept
      obtain ⟨p, same, perm⟩ := inductionHypothesis onward
      exact ⟨p, same, (perm.cons q).trans (List.Perm.swap p q shorter)⟩

theorem slots_setNode {node : Nat} {change : HNode Key Value → HNode Key Value}
    {new : Slot Key Value} (writes : ∀ p ∈ tbl.nodes, p.node = node → (change p).slot = new) :
    (tbl.setNode node change).slots =
      tbl.slots.map fun slot => if slot.node = node then new else slot := by
  rw [slots, nodes_setNode, slots, List.map_map, List.map_map]
  apply List.map_congr_left
  intro p member
  by_cases here : p.node = node
  · rw [Function.comp, if_pos here, writes p member here]
    exact (if_pos here).symm
  · simp [here, HNode.slot]

theorem Addressed.eq_of_node (addressed : tbl.Addressed) {p q : HNode Key Value}
    (memberP : p ∈ tbl.nodes) (memberQ : q ∈ tbl.nodes) (same : p.node = q.node) : p = q := by
  have nodup := addressed.nodup
  rw [slots, List.map_map] at nodup
  exact List.inj_on_of_nodup_map nodup memberP memberQ same

/-- Removing a node takes its slot away and calls its cleaner. -/
theorem removeNode_slots (addressed : tbl.Addressed) {node : Nat}
    {cleaned : List (CleanerCall Key Value)}
    (removed : tbl.lsHtableRemoveNode node = .ok (cleaned, after)) :
    ∃ p ∈ tbl.nodes, p.node = node ∧ cleaned = clean p false true ∧
      tbl.slots.Perm (p.slot :: after.slots) ∧ after.fresh = tbl.fresh := by
  unfold lsHtableRemoveNode at removed
  split at removed
  next => cases removed
  next found search =>
    have member := List.mem_of_find?_eq_some search
    have same : found.node = node := by simpa using List.find?_some search
    split at removed
    next inside =>
      obtain ⟨chain, unchained, kept⟩ := Exec.bind_eq_ok.mp removed
      cases kept
      let bucket : Fin tbl.bcount := ⟨_, inside.2⟩
      obtain ⟨q, here, split⟩ := unchain_perm unchained
      obtain ⟨others, before, replaced⟩ := tbl.nodes_update bucket
      have whole : tbl.nodes.Perm (q :: (chain ++ others)) :=
        before.trans (split.append_right others)
      have gone := addressed.eq_of_node (whole.mem_iff.mpr List.mem_cons_self) member
        (here.trans same.symm)
      subst gone
      have remaining := whole.trans ((replaced chain).symm.cons q)
      exact ⟨q, member, same, rfl, remaining.map HNode.slot, rfl⟩
    next => cases removed

theorem slot_eq_of_equivalent (lawful : LawfulKeys tbl.hash tbl.cmp) (wf : tbl.WellFormed)
    {first second : Slot Key Value} (inFirst : first ∈ tbl.slots) (inSecond : second ∈ tbl.slots)
    (equivalent : tbl.cmp first.key second.key = 0) : first = second := by
  obtain ⟨p, memberP, rfl⟩ := List.mem_map.mp inFirst
  obtain ⟨q, memberQ, rfl⟩ := List.mem_map.mp inSecond
  rw [HTable.eq_of_equivalent lawful wf memberP memberQ equivalent]

end HTable

namespace SlotEffect

variable {tbl after : HTable Key Value}

theorem on_untouched (same : after.slots.Perm tbl.slots) (fresh : after.fresh = tbl.fresh) :
    On (⟨fun _ => false, none⟩ : SlotEffect Key Value) tbl after where
  content := by simpa using same
  fresh := fresh.ge
  bounded := by simp
  single := by simp

theorem on_replaced (addressed : tbl.Addressed) {old new : Slot Key Value}
    (member : old ∈ tbl.slots) (sameNode : new.node = old.node)
    (content : after.slots = tbl.slots.map fun slot => if slot.node = old.node then new else slot)
    (fresh : after.fresh = tbl.fresh) {ends : Nat → Bool}
    (only : ∀ node, ends node = decide (node = old.node)) : On ⟨ends, some new⟩ tbl after where
  content := by
    rw [content, funext only]
    exact replace_slot_perm addressed.nodup member new
  fresh := fresh.ge
  bounded := by
    rintro _ ⟨⟩
    rw [sameNode, fresh]
    exact addressed.bounded old member
  single := by
    rintro _ ⟨⟩ slot _
    simp [only, sameNode]

theorem on_dropped (addressed : tbl.Addressed) {old : Slot Key Value}
    (perm : tbl.slots.Perm (old :: after.slots)) (fresh : after.fresh = tbl.fresh)
    {ends : Nat → Bool} (only : ∀ node, ends node = decide (node = old.node)) :
    On ⟨ends, none⟩ tbl after where
  content := by
    rw [funext only, Option.toList_none, List.append_nil]
    exact (drop_slot_perm addressed.nodup perm).1
  fresh := fresh.ge
  bounded := by simp
  single := by simp

theorem on_added (addressed : tbl.Addressed) {new : Slot Key Value} (added : new.node = tbl.fresh)
    (content : after.slots.Perm (new :: tbl.slots)) (fresh : after.fresh = tbl.fresh + 1)
    {ends : Nat → Bool} (none : ∀ node, ends node = false) : On ⟨ends, some new⟩ tbl after where
  content := by
    refine content.trans ?_
    rw [funext none]
    simpa using (List.perm_append_singleton new tbl.slots).symm
  fresh := by omega
  bounded := by
    rintro _ ⟨⟩
    omega
  single := by
    rintro _ ⟨⟩ slot member
    have older := addressed.bounded slot member
    simp only [none, Bool.false_eq_true, false_iff]
    omega

theorem On.addressed {effect : SlotEffect Key Value} (on : effect.On tbl after)
    (addressed : tbl.Addressed) : after.Addressed := by
  have kept : ∀ slot ∈ tbl.slots.filter (fun slot => !effect.ends slot.node),
      slot ∈ tbl.slots ∧ effect.ends slot.node = false := by
    intro slot member
    simpa using List.mem_filter.mp member
  constructor
  · rw [(on.content.map Slot.node).nodup_iff, List.map_append]
    refine List.Nodup.append ?_ ?_ ?_
    · exact addressed.nodup.sublist (List.filter_sublist.map Slot.node)
    · cases effect.stored <;> simp
    · intro node older newer
      obtain ⟨old, inside, rfl⟩ := List.mem_map.mp older
      obtain ⟨new, stored, same⟩ := List.mem_map.mp newer
      obtain ⟨member, goesOn⟩ := kept old inside
      rw [(on.single new (Option.mem_toList.mp stored) old member).mpr same.symm] at goesOn
      cases goesOn
  · intro slot member
    rcases List.mem_append.mp (on.content.mem_iff.mp member) with old | new
    · exact lt_of_lt_of_le (addressed.bounded slot (kept slot old).1) on.fresh
    · exact on.bounded slot (Option.mem_toList.mp new)

end SlotEffect

namespace TableCall

variable {tbl : HTable Key Value} {call : TableCall Key Value} {answer : Answer Key Value}

theorem stored_equivalent (lawful : LawfulKeys tbl.hash tbl.cmp) (wf : tbl.WellFormed)
    (addressed : tbl.Addressed) {accepted : Bool} {old new : Slot Key Value}
    (member : old ∈ tbl.slots) (ends : (call.effect tbl accepted).ends old.node = true)
    (stored : (call.effect tbl accepted).stored = some new) :
    tbl.cmp old.key new.key = 0 := by
  cases call with
  | put key value cleaner calloc malloc =>
    cases accepted with
    | false => cases stored
    | true =>
      cases stored
      obtain ⟨p, found, same⟩ := HTable.getNode_of_holder (of_decide_eq_true ends)
      obtain ⟨other, searched, finds⟩ := HTable.findNode_ok lawful wf key
      cases found.symm.trans searched
      obtain rfl := List.inj_on_of_nodup_map addressed.nodup
        (List.mem_map_of_mem finds.1) member same
      exact lawful.equivalence.symm finds.2
  | putValue target value cleaner =>
    obtain ⟨slot, found, rfl⟩ := Option.map_eq_some_iff.mp stored
    have here : slot.node = target := by simpa using List.find?_some found
    obtain rfl := List.inj_on_of_nodup_map addressed.nodup (List.mem_of_find?_eq_some found) member
      (here.trans (of_decide_eq_true ends).symm)
    exact lawful.equivalence.refl _
  | get key => cases stored
  | getNode key => cases stored
  | remove key => cases stored
  | removeNode node => cases stored
  | clear => cases stored

variable [DecidableEq Key]

/-- A call did to the table what it is to do, called the cleaners that are due
in some order, and did nothing when it was refused. -/
structure Performed (tbl : HTable Key Value) (call : TableCall Key Value)
    (answer : Answer Key Value) : Prop where
  on : (call.effect tbl answer.accepted).On tbl answer.table
  cleaned : answer.cleaned.Perm
    ((tbl.slots.filter fun slot => (call.effect tbl answer.accepted).ends slot.node).filterMap
      ((call.effect tbl answer.accepted).due call))
  refused : answer.accepted = false → call.effect tbl answer.accepted = ⟨fun _ => false, none⟩

theorem cleaned_single (addressed : tbl.Addressed) {p : HNode Key Value} (member : p ∈ tbl.nodes)
    {effect : SlotEffect Key Value} (only : ∀ node, effect.ends node = decide (node = p.node)) :
    (tbl.slots.filter fun slot => effect.ends slot.node).filterMap (effect.due call) =
      (effect.due call p.slot).toList := by
  have single : (tbl.slots.filter fun slot => effect.ends slot.node) = [p.slot] := by
    rw [funext fun slot : Slot Key Value => only slot.node]
    exact filter_slot_eq addressed.nodup (List.mem_map_of_mem member)
  rw [single]
  cases due : effect.due call p.slot with
  | none => rw [List.filterMap_cons_none due, List.filterMap_nil, Option.toList_none]
  | some called => rw [List.filterMap_cons_some due, List.filterMap_nil, Option.toList_some]

theorem performed_untouched {after : HTable Key Value} (same : after.slots.Perm tbl.slots)
    (fresh : after.fresh = tbl.fresh) {accepted : Bool}
    (nothing : call.effect tbl accepted = ⟨fun _ => false, none⟩) :
    call.Performed tbl ⟨accepted, [], after⟩ where
  on := by
    rw [nothing]
    exact SlotEffect.on_untouched same fresh
  cleaned := by
    rw [nothing]
    simp
  refused _ := nothing

theorem put_performed (addressed : tbl.Addressed) {key : Key} {value : Option Value}
    {cleaner : Option Nat} {calloc : Nat → Bool} {malloc : Bool}
    (returned : (put key value cleaner calloc malloc).answer tbl = .ok answer) :
    (put key value cleaner calloc malloc).Performed tbl answer := by
  obtain ⟨⟨accepted, cleaned, after⟩, put, answered⟩ := Exec.bind_eq_ok.mp returned
  cases answered
  obtain ⟨found, searched, put⟩ := Exec.bind_eq_ok.mp put
  rw [HTable.findNode_put] at searched
  have holder : tbl.holder key = found.map HNode.node := by simp [HTable.holder, searched]
  cases found with
  | some p =>
    cases put
    have member := HTable.getNode_mem searched
    have only : ∀ node, decide (tbl.holder key = some node) = decide (node = p.node) := by
      intro node
      rw [holder]
      simp [eq_comm]
    constructor
    · refine SlotEffect.on_replaced addressed (List.mem_map_of_mem member) ?_ ?_ ?_ only
      · simp [holder, HNode.slot]
      · refine HTable.slots_setNode fun q inside same => ?_
        simp [holder, HNode.slot, show q.node = p.node from same]
      · rfl
    · rw [cleaned_single addressed member only, HTable.clean_eq_charge]
      simp [effect, SlotEffect.due, spares, HNode.slot, eq_comm]
    · simp
  | none =>
    have room : ∀ larger : HTable Key Value, larger.slots.Perm tbl.slots →
        larger.fresh = tbl.fresh → ∀ {made : HTable Key Value} {accepted : Bool},
        larger.putNew key value cleaner (tbl.hash key) malloc = (accepted, made) →
          (TableCall.put key value cleaner calloc malloc).Performed tbl ⟨accepted, [], made⟩ := by
      intro larger same fresh made accepted stored
      rcases HTable.putNew_slots stored with ⟨rfl, rfl⟩ | ⟨rfl, grown, counted⟩
      · exact performed_untouched same fresh rfl
      · have nowhere : ∀ node, decide (tbl.holder key = some node) = false := by
          intro node
          rw [holder]
          rfl
        constructor
        · refine SlotEffect.on_added addressed ?_ ?_ (counted.trans (by rw [fresh])) nowhere
          · simp [holder]
          · rw [holder]
            rw [fresh] at grown
            exact grown.trans (same.cons _)
        · simp [effect, holder]
        · simp
    dsimp only at put
    split at put
    next =>
      split at put
      next refused =>
        cases put
        obtain ⟨same, fresh⟩ := HTable.resizeHashtable_slots refused
        exact performed_untouched same fresh rfl
      next granted =>
        cases put
        obtain ⟨same, fresh⟩ := HTable.resizeHashtable_slots granted
        exact room _ same fresh rfl
    next =>
      cases put
      exact room tbl (List.Perm.refl _) rfl rfl

theorem removed_performed (addressed : tbl.Addressed) {p : HNode Key Value}
    {after : HTable Key Value} (member : p ∈ tbl.nodes)
    (perm : tbl.slots.Perm (p.slot :: after.slots)) (fresh : after.fresh = tbl.fresh)
    {ends : Nat → Bool} (only : ∀ node, ends node = decide (node = p.node))
    (removes : call.effect tbl true = ⟨ends, none⟩) (strict : call.spares p.slot = false) :
    call.Performed tbl ⟨true, HTable.clean p false true, after⟩ where
  on := by
    rw [removes]
    exact SlotEffect.on_dropped addressed perm fresh only
  cleaned := by
    rw [removes, cleaned_single addressed member only, HTable.clean_eq_charge]
    simp [SlotEffect.due, strict]
  refused := by simp

theorem putValue_performed (addressed : tbl.Addressed) {node : Nat} {value : Option Value}
    {cleaner : Option Nat} (returned : (putValue node value cleaner).answer tbl = .ok answer) :
    (putValue node value cleaner).Performed tbl answer := by
  obtain ⟨⟨cleaned, after⟩, put, answered⟩ := Exec.bind_eq_ok.mp returned
  cases answered
  unfold HTable.lsHnodePutValue at put
  split at put
  next => cases put
  next old search =>
    cases put
    have member := List.mem_of_find?_eq_some search
    have same : old.node = node := by simpa using List.find?_some search
    subst same
    have found : tbl.slots.find? (fun slot => decide (slot.node = old.node)) = some old.slot := by
      rw [HTable.slots, List.find?_map]
      exact congrArg (Option.map HNode.slot) search
    have stores : (putValue old.node value cleaner).effect tbl true =
        ⟨fun node => node = old.node, some ⟨old.node, old.key, value, cleaner⟩⟩ := by
      simp only [effect, found, Option.map_some]
      rfl
    constructor
    · rw [stores]
      refine SlotEffect.on_replaced addressed (List.mem_map_of_mem member) ?_ ?_ ?_ fun _ => rfl
      · rfl
      · refine HTable.slots_setNode fun q inside here => ?_
        obtain rfl := addressed.eq_of_node inside member here
        rfl
      · rfl
    · rw [stores, cleaned_single addressed member fun _ => rfl]
      cases stored : old.value <;>
        simp [SlotEffect.due, spares, HNode.slot, stored, HTable.clean_eq_charge]
    · simp

theorem clear_performed :
    clear.Performed tbl ⟨true, tbl.lsHtableClear.1, tbl.lsHtableClear.2⟩ where
  on := by
    have empty : tbl.lsHtableClear.2.slots = [] := by
      rw [HTable.slots, show tbl.lsHtableClear.2.nodes = [] from HTable.nodes_of_empty]
      rfl
    constructor
    · rw [empty]
      simp [effect]
    · exact le_refl _
    · simp [effect]
    · simp [effect]
  cleaned := by
    apply List.Perm.of_eq
    have all : (tbl.slots.filter fun slot => (clear.effect tbl true).ends slot.node) = tbl.slots :=
      List.filter_eq_self.mpr fun _ _ => rfl
    rw [all, HTable.slots, List.filterMap_map, List.filterMap_eq_flatMap_toList]
    apply List.flatMap_congr
    intro p _
    exact HTable.clean_eq_charge p false true
  refused := by simp

/-- Every call that returns does what it is to do. -/
theorem performed (addressed : tbl.Addressed) (returned : call.answer tbl = .ok answer) :
    call.Performed tbl answer := by
  cases call with
  | put key value cleaner calloc malloc => exact put_performed addressed returned
  | get key =>
    obtain ⟨_, _, answered⟩ := Exec.bind_eq_ok.mp returned
    cases answered
    exact performed_untouched (List.Perm.refl _) rfl rfl
  | getNode key =>
    obtain ⟨_, _, answered⟩ := Exec.bind_eq_ok.mp returned
    cases answered
    exact performed_untouched (List.Perm.refl _) rfl rfl
  | remove key =>
    obtain ⟨⟨cleaned, after⟩, removed, answered⟩ := Exec.bind_eq_ok.mp returned
    cases answered
    obtain ⟨found, searched, removed⟩ := Exec.bind_eq_ok.mp removed
    have holder : tbl.holder key = found.map HNode.node := by
      simp [HTable.holder, show tbl.lsHtableGetNode key = .ok found from searched]
    cases found with
    | none =>
      cases removed
      refine performed_untouched (List.Perm.refl _) rfl ?_
      simp [effect, holder]
    | some q =>
      obtain ⟨p, member, same, rfl, perm, fresh⟩ := HTable.removeNode_slots addressed removed
      refine removed_performed addressed member perm fresh ?_ rfl rfl
      intro node
      rw [holder]
      simp [same, eq_comm]
  | removeNode node =>
    obtain ⟨⟨cleaned, after⟩, removed, answered⟩ := Exec.bind_eq_ok.mp returned
    cases answered
    obtain ⟨p, member, rfl, rfl, perm, fresh⟩ := HTable.removeNode_slots addressed removed
    exact removed_performed addressed member perm fresh (fun _ => rfl) rfl rfl
  | putValue node value cleaner => exact putValue_performed addressed returned
  | clear =>
    cases returned
    exact clear_performed

end TableCall

end SpudLib
