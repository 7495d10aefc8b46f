import SpudLib.HashTable.WellFormed
import SpudLib.Foundation.System
import Mathlib.Data.Finmap

/-!
# The hash table is a finite map

What a table is for: a finite map from classes of equivalent keys to the key
pointer and the value stored last.  `replay` says which map a history of
successful calls leaves, and every run of the table agrees with it.
-/

namespace SpudLib

variable {Key Value : Type} {hash : Key → UInt32} {cmp : Key → Key → Int}

def LawfulKeys.Class (lawful : LawfulKeys hash cmp) : Type :=
  Quotient ⟨fun first second => cmp first second = 0, lawful.equivalence⟩

def LawfulKeys.classOf (lawful : LawfulKeys hash cmp) (key : Key) : lawful.Class :=
  Quotient.mk _ key

theorem LawfulKeys.classOf_eq (lawful : LawfulKeys hash cmp) {first second : Key} :
    lawful.classOf first = lawful.classOf second ↔ cmp first second = 0 :=
  Quotient.eq (r := ⟨fun first second => cmp first second = 0, lawful.equivalence⟩)

noncomputable instance (lawful : LawfulKeys hash cmp) : DecidableEq lawful.Class :=
  Classical.decEq _

abbrev LawfulKeys.Store (lawful : LawfulKeys hash cmp) (Value : Type) : Type :=
  Finmap fun _ : lawful.Class => Key × Option Value

namespace HTable

/-- The table holds exactly the entries of the map. -/
structure Represents (lawful : LawfulKeys hash cmp) (tbl : HTable Key Value)
    (store : lawful.Store Value) : Prop where
  hash : tbl.hash = hash
  cmp : tbl.cmp = cmp
  wf : tbl.WellFormed
  agree : ∀ slot ∈ tbl.slots, store.lookup (lawful.classOf slot.key) = some (slot.key, slot.value)
  only : ∀ entry ∈ store, ∃ slot ∈ tbl.slots, lawful.classOf slot.key = entry

namespace Represents

variable {lawful : LawfulKeys hash cmp} {tbl : HTable Key Value} {store : lawful.Store Value}

theorem ownLawful (represents : tbl.Represents lawful store) : LawfulKeys tbl.hash tbl.cmp := by
  rw [represents.hash, represents.cmp]
  exact lawful

theorem mem_slots {p : HNode Key Value} (member : p ∈ tbl.nodes) : p.slot ∈ tbl.slots :=
  List.mem_map_of_mem member

theorem slot_unique (represents : tbl.Represents lawful store) {first second : Slot Key Value}
    (memberFirst : first ∈ tbl.slots) (memberSecond : second ∈ tbl.slots)
    (same : lawful.classOf first.key = lawful.classOf second.key) : first = second := by
  obtain ⟨p, inP, rfl⟩ := List.mem_map.mp memberFirst
  obtain ⟨q, inQ, rfl⟩ := List.mem_map.mp memberSecond
  rw [lawful.classOf_eq, ← represents.cmp] at same
  rw [eq_of_equivalent represents.ownLawful represents.wf inP inQ same]

theorem node_injective (represents : tbl.Represents lawful store) {first second : Slot Key Value}
    (memberFirst : first ∈ tbl.slots) (memberSecond : second ∈ tbl.slots)
    (same : first.node = second.node) : first = second := by
  obtain ⟨p, inP, rfl⟩ := List.mem_map.mp memberFirst
  obtain ⟨q, inQ, rfl⟩ := List.mem_map.mp memberSecond
  rw [List.inj_on_of_nodup_map represents.wf.addresses inP inQ same]

theorem getNode (represents : tbl.Represents lawful store) (key : Key) :
    ∃ found, tbl.lsHtableGetNode key = .ok found ∧ tbl.Finds key found ∧
      found.map (fun p => (p.key, p.value)) = store.lookup (lawful.classOf key) := by
  obtain ⟨found, search, finds⟩ := findNode_ok represents.ownLawful represents.wf key
  refine ⟨found, search, finds, ?_⟩
  cases found with
  | none =>
    symm
    rw [Option.map_none, Finmap.lookup_eq_none]
    intro stored
    obtain ⟨slot, member, same⟩ := represents.only _ stored
    obtain ⟨p, inside, rfl⟩ := List.mem_map.mp member
    refine finds p inside ?_
    rw [represents.cmp]
    exact lawful.classOf_eq.mp same.symm
  | some p =>
    have same : lawful.classOf key = lawful.classOf p.key := by
      rw [lawful.classOf_eq, ← represents.cmp]
      exact finds.2
    rw [same]
    exact (represents.agree p.slot (mem_slots finds.1)).symm

theorem get (represents : tbl.Represents lawful store) (key : Key) :
    tbl.lsHtableGet key = .ok ((store.lookup (lawful.classOf key)).bind Prod.snd) := by
  obtain ⟨found, search, _, agrees⟩ := represents.getNode key
  rw [lsHtableGet, show tbl.findNode key (-1) 0 = .ok found from search, ← agrees]
  cases found <;> rfl

theorem getCount (represents : tbl.Represents lawful store) :
    tbl.lsHtableGetCount = store.keys.card := by
  have keys : store.keys = (tbl.slots.map fun slot => lawful.classOf slot.key).toFinset := by
    ext entry
    rw [Finmap.mem_keys, List.mem_toFinset, List.mem_map]
    constructor
    · exact represents.only entry
    · rintro ⟨slot, member, rfl⟩
      exact Finmap.mem_of_lookup_eq_some (represents.agree slot member)
  have nodup : (tbl.slots.map fun slot => lawful.classOf slot.key).Nodup := by
    rw [slots, List.map_map, List.nodup_iff_pairwise_ne, List.pairwise_map]
    refine represents.wf.apart.imp ?_
    intro p q different same
    refine different ?_
    rw [represents.cmp]
    exact lawful.classOf_eq.mp same
  rw [keys, List.toFinset_card_of_nodup nodup, List.length_map, slots, List.length_map]
  exact represents.wf.exact

theorem replaced (represents : tbl.Represents lawful store) {after : HTable Key Value}
    {p : HNode Key Value} (member : p ∈ tbl.nodes) (content : Slot Key Value)
    (same : lawful.classOf content.key = lawful.classOf p.key) (wf : after.WellFormed)
    (slots : after.slots = tbl.slots.map fun slot =>
      if slot.node = p.node then content else slot)
    (sameHash : after.hash = tbl.hash) (sameCmp : after.cmp = tbl.cmp) :
    after.Represents lawful
      (store.insert (lawful.classOf content.key) (content.key, content.value)) := by
  refine ⟨sameHash.trans represents.hash, sameCmp.trans represents.cmp, wf, ?_, ?_⟩
  · intro slot inside
    rw [slots] at inside
    obtain ⟨old, oldMember, rfl⟩ := List.mem_map.mp inside
    by_cases here : old.node = p.node
    · rw [if_pos here, Finmap.lookup_insert]
    · rw [if_neg here, Finmap.lookup_insert_of_ne]
      · exact represents.agree old oldMember
      · intro sameClass
        refine here ?_
        rw [represents.slot_unique oldMember (mem_slots member) (sameClass.trans same)]
        rfl
  · intro entry stored
    rw [slots]
    rw [Finmap.mem_insert] at stored
    have updated : content ∈ tbl.slots.map fun slot =>
        if slot.node = p.node then content else slot :=
      List.mem_map.mpr ⟨p.slot, mem_slots member, if_pos rfl⟩
    rcases stored with rfl | stored
    · exact ⟨content, updated, rfl⟩
    · obtain ⟨old, oldMember, rfl⟩ := represents.only entry stored
      by_cases here : old.node = p.node
      · refine ⟨content, updated, ?_⟩
        rw [same, represents.node_injective oldMember (mem_slots member) here]
        rfl
      · exact ⟨old, List.mem_map.mpr ⟨old, oldMember, if_neg here⟩, rfl⟩

theorem permuted (represents : tbl.Represents lawful store) {after : HTable Key Value}
    (wf : after.WellFormed) (slots : after.slots.Perm tbl.slots)
    (sameHash : after.hash = tbl.hash) (sameCmp : after.cmp = tbl.cmp) :
    after.Represents lawful store := by
  refine ⟨sameHash.trans represents.hash, sameCmp.trans represents.cmp, wf, ?_, ?_⟩
  · intro slot inside
    exact represents.agree slot (slots.mem_iff.mp inside)
  · intro entry stored
    obtain ⟨slot, member, same⟩ := represents.only entry stored
    exact ⟨slot, slots.mem_iff.mpr member, same⟩

theorem added (represents : tbl.Represents lawful store) {after : HTable Key Value}
    (content : Slot Key Value) (new : lawful.classOf content.key ∉ store) (wf : after.WellFormed)
    (slots : after.slots.Perm (content :: tbl.slots))
    (sameHash : after.hash = tbl.hash) (sameCmp : after.cmp = tbl.cmp) :
    after.Represents lawful
      (store.insert (lawful.classOf content.key) (content.key, content.value)) := by
  refine ⟨sameHash.trans represents.hash, sameCmp.trans represents.cmp, wf, ?_, ?_⟩
  · intro slot inside
    rcases List.mem_cons.mp (slots.mem_iff.mp inside) with rfl | old
    · rw [Finmap.lookup_insert]
    · rw [Finmap.lookup_insert_of_ne]
      · exact represents.agree slot old
      · intro same
        refine new ?_
        rw [← same]
        exact Finmap.mem_of_lookup_eq_some (represents.agree slot old)
  · intro entry stored
    rcases (Finmap.mem_insert.mp stored) with rfl | stored
    · exact ⟨content, slots.mem_iff.mpr List.mem_cons_self, rfl⟩
    · obtain ⟨slot, member, same⟩ := represents.only entry stored
      exact ⟨slot, slots.mem_iff.mpr (List.mem_cons_of_mem _ member), same⟩

theorem dropped (represents : tbl.Represents lawful store) {after : HTable Key Value}
    {content : Slot Key Value} (wf : after.WellFormed)
    (slots : tbl.slots.Perm (content :: after.slots))
    (sameHash : after.hash = tbl.hash) (sameCmp : after.cmp = tbl.cmp) :
    after.Represents lawful (store.erase (lawful.classOf content.key)) := by
  have nodup : tbl.slots.Nodup := by
    refine List.Nodup.of_map Slot.node ?_
    rw [HTable.slots, List.map_map]
    exact represents.wf.addresses
  have fresh : content ∉ after.slots := (List.nodup_cons.mp (slots.nodup_iff.mp nodup)).1
  have member : content ∈ tbl.slots := slots.mem_iff.mpr List.mem_cons_self
  refine ⟨sameHash.trans represents.hash, sameCmp.trans represents.cmp, wf, ?_, ?_⟩
  · intro slot inside
    have old : slot ∈ tbl.slots := slots.mem_iff.mpr (List.mem_cons_of_mem _ inside)
    rw [Finmap.lookup_erase_ne]
    · exact represents.agree slot old
    · intro same
      exact fresh (represents.slot_unique old member same ▸ inside)
  · intro entry stored
    obtain ⟨different, stored⟩ := Finmap.mem_erase.mp stored
    obtain ⟨slot, old, rfl⟩ := represents.only entry stored
    rcases List.mem_cons.mp (slots.mem_iff.mp old) with rfl | inside
    · exact absurd rfl different
    · exact ⟨slot, inside, rfl⟩

end Represents

end HTable

end SpudLib
