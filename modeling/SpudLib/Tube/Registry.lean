import SpudLib.Tube.Manager

/-!
# The table of tubes

What the table is for: it finds the tube with an identifier.  The table
registers a map from identifiers to tubes when each of its nodes belongs to one
entry of the map, and every function of the table is an operation on that map.
-/

namespace SpudLib

theorem compareKey_eq_zero {first second : TubeKey} :
    compareKey first second = 0 ↔ first.id = second.id :=
  compareId_eq_zero

theorem lawfulTubeKeys : LawfulKeys hashKey compareKey where
  equivalence := by
    refine ⟨fun key => compareKey_eq_zero.mpr rfl, ?_, ?_⟩
    · intro first second same
      exact compareKey_eq_zero.mpr (compareKey_eq_zero.mp same).symm
    · intro first second third same again
      exact compareKey_eq_zero.mpr
        ((compareKey_eq_zero.mp same).trans (compareKey_eq_zero.mp again))
  sameHash first second same := congrArg hashId (compareKey_eq_zero.mp same)

/-- The slot of a tube: its own key, the tube, and the cleaner that destroys it. -/
def Slot.Belongs (slot : Slot TubeKey Nat) (id : SpudTubeId) (t : Nat) : Prop :=
  slot.key = ⟨some t, id⟩ ∧ slot.value = some t ∧ slot.cleaner = some cleanTubeAddress

/-- The table holds exactly the entries of the map. -/
structure Registers (tbl : HTable TubeKey Nat) (find : SpudTubeId → Option Nat) : Prop where
  hash : tbl.hash = hashKey
  cmp : tbl.cmp = compareKey
  wf : tbl.WellFormed
  sound : ∀ slot ∈ tbl.slots, ∃ t, find slot.key.id = some t ∧ slot.Belongs slot.key.id t
  all : ∀ id t, find id = some t → ∃ slot ∈ tbl.slots, slot.Belongs id t

/-- One more node needs no bucket array of `2 ^ 30` pointers. -/
def HTable.Roomy (tbl : HTable TubeKey Nat) : Prop :=
  tbl.bcount * 3 / 4 < tbl.count + 1 → HTable.grown tbl.bcount < 2 ^ 30

instance (tbl : HTable TubeKey Nat) : Decidable tbl.Roomy :=
  inferInstanceAs (Decidable (_ → _))

theorem HTable.Roomy.accepts {tbl : HTable TubeKey Nat} {calloc : Nat → Bool} (roomy : tbl.Roomy)
    (called : ∀ size, size < 2 ^ 30 → calloc size = true) : tbl.Accepts calloc true :=
  ⟨rfl, fun full => called _ (roomy full)⟩

namespace Registers

variable {tbl : HTable TubeKey Nat} {find : SpudTubeId → Option Nat} {id : SpudTubeId} {t : Nat}

theorem lawful (registers : Registers tbl find) : LawfulKeys tbl.hash tbl.cmp := by
  rw [registers.hash, registers.cmp]
  exact lawfulTubeKeys

theorem equivalent (registers : Registers tbl find) {first second : TubeKey} :
    tbl.cmp first second = 0 ↔ first.id = second.id := by
  rw [registers.cmp]
  exact compareKey_eq_zero

theorem node (registers : Registers tbl find) {p : HNode TubeKey Nat} (member : p ∈ tbl.nodes) :
    ∃ t, find p.key.id = some t ∧ p.slot.Belongs p.key.id t :=
  registers.sound p.slot (List.mem_map_of_mem member)

theorem node_unique (registers : Registers tbl find) {p q : HNode TubeKey Nat}
    (memberP : p ∈ tbl.nodes) (memberQ : q ∈ tbl.nodes) (same : p.key.id = q.key.id) : p = q :=
  HTable.eq_of_equivalent registers.lawful registers.wf memberP memberQ
    (registers.equivalent.mpr same)

theorem findNode (registers : Registers tbl find) (key : TubeKey) :
    ∃ found, tbl.findNode key (-1) 0 = .ok found ∧
      match found with
      | none => find key.id = none
      | some p => p ∈ tbl.nodes ∧ p.key.id = key.id := by
  obtain ⟨found, search, finds⟩ := HTable.findNode_ok registers.lawful registers.wf key
  refine ⟨found, search, ?_⟩
  cases found with
  | none =>
    by_contra stored
    obtain ⟨t, stored⟩ := Option.ne_none_iff_exists'.mp stored
    obtain ⟨slot, member, belongs⟩ := registers.all _ _ stored
    obtain ⟨p, inside, rfl⟩ := List.mem_map.mp member
    refine finds p inside (registers.equivalent.mpr ?_)
    exact (congrArg TubeKey.id belongs.1).symm
  | some p => exact ⟨finds.1, (registers.equivalent.mp finds.2).symm⟩

theorem get (registers : Registers tbl find) (key : TubeKey) :
    tbl.lsHtableGet key = .ok (find key.id) := by
  obtain ⟨found, search, finds⟩ := registers.findNode key
  rw [HTable.lsHtableGet, search]
  cases found with
  | none =>
    rw [show find key.id = none from finds]
    rfl
  | some p =>
    obtain ⟨t, stored, belongs⟩ := registers.node finds.1
    rw [finds.2] at stored
    rw [stored]
    exact congrArg Except.ok belongs.2.1

theorem absent (registers : Registers tbl find) {key : TubeKey} (missing : find key.id = none) :
    ∀ p ∈ tbl.nodes, tbl.cmp key p.key ≠ 0 := by
  intro p member equal
  obtain ⟨t, stored, _⟩ := registers.node member
  rw [← registers.equivalent.mp equal, missing] at stored
  cases stored

/-- Every slot of the table afterwards is the new one or an old one of another identifier. -/
theorem updated (registers : Registers tbl find) {after : HTable TubeKey Nat}
    {content : Slot TubeKey Nat} (belongs : content.Belongs id t) (wf : after.WellFormed)
    (sameHash : after.hash = tbl.hash) (sameCmp : after.cmp = tbl.cmp)
    (slots : ∀ slot, slot ∈ after.slots ↔
      slot = content ∨ slot ∈ tbl.slots ∧ slot.key.id ≠ id) :
    Registers after (Function.update find id (some t)) := by
  have own : content.key.id = id := congrArg TubeKey.id belongs.1
  refine ⟨sameHash.trans registers.hash, sameCmp.trans registers.cmp, wf, ?_, ?_⟩
  · intro slot member
    rcases (slots slot).mp member with rfl | ⟨old, other⟩
    · rw [own]
      exact ⟨t, Function.update_self .., belongs⟩
    · rw [Function.update_of_ne other]
      exact registers.sound slot old
  · intro other tube stored
    by_cases here : other = id
    · subst here
      rw [Function.update_self] at stored
      cases stored
      exact ⟨content, (slots _).mpr (.inl rfl), belongs⟩
    · rw [Function.update_of_ne here] at stored
      obtain ⟨slot, old, theirs⟩ := registers.all _ _ stored
      refine ⟨slot, (slots _).mpr (.inr ⟨old, ?_⟩), theirs⟩
      rw [theirs.1]
      exact here

/-- A put under a new identifier registers the tube, or is refused. -/
theorem put_absent (registers : Registers tbl find) (missing : find id = none) (t : Nat)
    {calloc : Nat → Bool} (refused : ∀ size, 2 ^ 30 ≤ size → calloc size = false)
    (malloc : Bool) :
    ∃ answer after,
      tbl.lsHtablePut ⟨some t, id⟩ (some t) (some cleanTubeAddress) calloc malloc =
        .ok (answer, [], after) ∧
      Registers after (if answer then Function.update find id (some t) else find) ∧
      (answer = true ↔ tbl.Accepts calloc malloc) := by
  obtain ⟨answer, after, returned, wf, slots, accepted, sameHash, sameCmp⟩ :=
    @HTable.lsHtablePut_absent _ _ tbl _ ⟨some t, id⟩ registers.lawful registers.wf
      (registers.absent missing) (some t) (some cleanTubeAddress) _ refused malloc
  refine ⟨answer, after, returned, ?_, accepted⟩
  · rcases slots with ⟨rfl, slots⟩ | ⟨rfl, slots⟩
    · refine ⟨sameHash.trans registers.hash, sameCmp.trans registers.cmp, wf, ?_, ?_⟩
      · intro slot member
        exact registers.sound slot (slots.mem_iff.mp member)
      · intro other tube stored
        obtain ⟨slot, member, belongs⟩ := registers.all other tube stored
        exact ⟨slot, slots.mem_iff.mpr member, belongs⟩
    · have own : Slot.Belongs
          ⟨tbl.fresh, ⟨some t, id⟩, some t, some cleanTubeAddress⟩ id t :=
        ⟨rfl, rfl, rfl⟩
      refine registers.updated own wf sameHash sameCmp ?_
      intro slot
      rw [slots.mem_iff, List.mem_cons]
      refine or_congr_right ⟨fun old => ⟨old, ?_⟩, And.left⟩
      rintro rfl
      obtain ⟨_, stored, _⟩ := registers.sound slot old
      rw [missing] at stored
      cases stored

/-- A put under an identifier that is taken cleans the tube that had it. -/
theorem put_found (registers : Registers tbl find) {old : Nat} (taken : find id = some old)
    (t : Nat) (calloc : Nat → Bool) (malloc : Bool) :
    ∃ call after,
      tbl.lsHtablePut ⟨some t, id⟩ (some t) (some cleanTubeAddress) calloc malloc =
        .ok (true, [call], after) ∧
      call.value = some old ∧ Registers after (Function.update find id (some t)) := by
  obtain ⟨slot, member, belongs⟩ := registers.all _ _ taken
  obtain ⟨p, inside, rfl⟩ := List.mem_map.mp member
  have own : p.key.id = id := congrArg TubeKey.id belongs.1
  obtain ⟨after, returned, wf, slots, sameHash, sameCmp⟩ :=
    @HTable.lsHtablePut_found _ _ tbl _ ⟨some t, id⟩ registers.lawful registers.wf p inside
      (registers.equivalent.mpr own.symm) (some t) (some cleanTubeAddress) calloc malloc
  have cleaned : p.cleaner = some cleanTubeAddress := belongs.2.2
  refine ⟨_, after, by rw [returned, HTable.clean, cleaned], belongs.2.1, ?_⟩
  have new : Slot.Belongs ⟨p.node, ⟨some t, id⟩, some t, some cleanTubeAddress⟩ id t :=
    ⟨rfl, rfl, rfl⟩
  refine registers.updated new wf sameHash sameCmp ?_
  intro slot
  rw [slots, List.mem_map]
  constructor
  · rintro ⟨before, found, rfl⟩
    obtain ⟨q, inQ, rfl⟩ := List.mem_map.mp found
    by_cases here : q.slot.node = p.node
    · rw [if_pos here]
      exact .inl (by rw [here])
    · rw [if_neg here]
      refine .inr ⟨found, ?_⟩
      intro same
      refine here ?_
      rw [registers.node_unique inQ inside ((show q.key.id = id from same).trans own.symm)]
      rfl
  · rintro (rfl | ⟨found, other⟩)
    · exact ⟨p.slot, member, if_pos rfl⟩
    · refine ⟨slot, found, if_neg ?_⟩
      intro here
      obtain ⟨q, inQ, rfl⟩ := List.mem_map.mp found
      have same : q = p := List.inj_on_of_nodup_map registers.wf.addresses inQ inside here
      exact other (same ▸ own)

theorem remove_absent (registers : Registers tbl find) {key : TubeKey}
    (missing : find key.id = none) : tbl.lsHtableRemove key = .ok ([], tbl) := by
  obtain ⟨found, search, finds⟩ := registers.findNode key
  rw [HTable.lsHtableRemove, search]
  cases found with
  | none => rfl
  | some p =>
    obtain ⟨t, stored, _⟩ := registers.node finds.1
    rw [finds.2, missing] at stored
    cases stored

/-- A removal cleans the tube with the identifier. -/
theorem remove_found (registers : Registers tbl find) {key : TubeKey} {old : Nat}
    (taken : find key.id = some old) :
    ∃ call after, tbl.lsHtableRemove key = .ok ([call], after) ∧ call.value = some old ∧
      Registers after (Function.update find key.id none) := by
  obtain ⟨found, search, finds⟩ := registers.findNode key
  cases found with
  | none => rw [show find key.id = none from finds] at taken; cases taken
  | some p =>
    obtain ⟨member, own⟩ := finds
    obtain ⟨t, stored, belongs⟩ := registers.node member
    rw [own, taken] at stored
    cases stored
    obtain ⟨after, returned, wf, slots, sameHash, sameCmp⟩ :=
      HTable.lsHtableRemoveNode_ok registers.lawful registers.wf member
    have cleaned : p.cleaner = some cleanTubeAddress := belongs.2.2
    refine ⟨⟨cleanTubeAddress, false, true, p.key, p.value⟩, after, ?_, belongs.2.1, ?_⟩
    · rw [HTable.lsHtableRemove, search]
      simp only [Exec.ok_bind, returned, HTable.clean, cleaned]
    · have nodup : (p.slot :: after.slots).Nodup := by
        refine slots.nodup_iff.mp (List.Nodup.of_map Slot.node ?_)
        rw [HTable.slots, List.map_map]
        exact registers.wf.addresses
      refine ⟨sameHash.trans registers.hash, sameCmp.trans registers.cmp, wf, ?_, ?_⟩
      · intro slot inside
        have old := slots.mem_iff.mpr (List.mem_cons_of_mem _ inside)
        rw [Function.update_of_ne]
        · exact registers.sound slot old
        · intro same
          obtain ⟨q, inQ, rfl⟩ := List.mem_map.mp old
          have same : q = p := registers.node_unique inQ member (same.trans own.symm)
          exact (List.nodup_cons.mp nodup).1 (same ▸ inside)
      · intro other tube stored
        by_cases here : other = key.id
        · rw [here, Function.update_self] at stored
          cases stored
        · rw [Function.update_of_ne here] at stored
          obtain ⟨slot, old, theirs⟩ := registers.all _ _ stored
          rcases List.mem_cons.mp (slots.mem_iff.mp old) with rfl | inside
          · exact absurd ((congrArg TubeKey.id theirs.1).symm.trans own) here
          · exact ⟨slot, inside, theirs⟩

theorem created {buckets : Int} {granted : Bool} {calloc : Nat → Bool}
    (refused : ∀ size, 2 ^ 30 ≤ size → calloc size = false)
    (returned : HTable.lsHtableCreate buckets hashKey compareKey granted calloc = some tbl) :
    Registers tbl fun _ => none := by
  obtain ⟨wf, empty, hash, cmp⟩ := HTable.lsHtableCreate_ok refused returned
  refine ⟨hash, cmp, wf, ?_, nofun⟩
  intro slot member
  rw [empty] at member
  cases member

theorem comparedNodes_subset (key : TubeKey) (chain : List (HNode TubeKey Nat)) :
    ∀ p ∈ comparedNodes tbl key chain, p ∈ chain := by
  induction chain with
  | nil => exact fun p member => member
  | cons first rest inductionHypothesis =>
    intro p member
    unfold comparedNodes at member
    split_ifs at member
    · exact List.mem_cons_of_mem _ (inductionHypothesis p member)
    · rw [List.mem_singleton.mp member]
      exact List.mem_cons_self
    · rcases List.mem_cons.mp member with rfl | later
      · exact List.mem_cons_self
      · exact List.mem_cons_of_mem _ (inductionHypothesis p later)

theorem ids_nodup (registers : Registers tbl find) : (tbl.nodes.map fun p => p.key.id).Nodup := by
  rw [List.nodup_iff_pairwise_ne, List.pairwise_map]
  refine registers.wf.apart.imp ?_
  intro p q different same
  exact different (registers.equivalent.mpr same)

theorem destroy (registers : Registers tbl find) :
    ∃ held : List (SpudTubeId × Nat), (held.map Prod.fst).Nodup ∧
      tbl.lsHtableDestroy.map CleanerCall.value = held.map (fun entry => some entry.2) ∧
      ∀ id t, (id, t) ∈ held ↔ find id = some t := by
  refine ⟨tbl.nodes.map fun p => (p.key.id, p.value.getD 0), ?_, ?_, ?_⟩
  · rw [List.map_map]
    exact registers.ids_nodup
  · have each : ∀ p ∈ tbl.nodes, (HTable.clean p false true).map CleanerCall.value =
        [some (p.value.getD 0)] := by
      intro p member
      obtain ⟨t, _, belongs⟩ := registers.node member
      have cleaned : p.cleaner = some cleanTubeAddress := belongs.2.2
      have valued : p.value = some t := belongs.2.1
      rw [HTable.clean, cleaned, valued]
      rfl
    rw [HTable.lsHtableDestroy, List.map_flatMap, List.flatMap_congr each, List.map_map]
    exact (List.map_eq_flatMap ..).symm
  · intro id t
    rw [List.mem_map]
    constructor
    · rintro ⟨p, member, same⟩
      obtain ⟨stored, found, belongs⟩ := registers.node member
      have valued : p.value = some stored := belongs.2.1
      rw [valued] at same
      cases same
      exact found
    · intro stored
      obtain ⟨slot, member, belongs⟩ := registers.all _ _ stored
      obtain ⟨p, inside, rfl⟩ := List.mem_map.mp member
      have valued : p.value = some t := belongs.2.1
      refine ⟨p, inside, ?_⟩
      rw [valued]
      exact Prod.ext (congrArg TubeKey.id belongs.1) rfl

end Registers

end SpudLib
