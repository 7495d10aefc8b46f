import SpudLib.Foundation.Comparison
import SpudLib.Tube.Tube
import Mathlib.Data.Fintype.Card

/-!
# Comparing socket addresses

`ls_sockaddr_cmp` of `src/ls_sockaddr.c`.  Two IPv4 addresses are compared by
their difference, an `unsigned int` that is returned as an `int`: the order goes
round the circle of all addresses, and is an order only on less than half of it.
-/

namespace SpudLib

def afInet : Int := 2

def afInet6 : Int := 10

/-- `sa_family`, as an `int`. -/
def SockAddr.saFamily : SockAddr → Int
  | .inet .. => afInet
  | .inet6 .. => afInet6
  | .other family => family.toNat

/-- `memcmp`: the difference of the first bytes that differ. -/
def memcmp : List UInt8 → List UInt8 → Int
  | a :: as, b :: bs =>
      let diff := (a.toNat : Int) - b.toNat
      if diff ≠ 0 then diff else memcmp as bs
  | _, _ => 0

def in6Bytes (address : BitVec 128) : List UInt8 :=
  (List.range 16).map fun i => ⟨address.extractLsb' (8 * (15 - i)) 8⟩

def lsAddrCmp6 (a b : BitVec 128) : Int := memcmp (in6Bytes a) (in6Bytes b)

/-- `ls_sockaddr_cmp`; the port is what `ntohs` answers, and an IPv4 address is `s_addr`, the
number that its four bytes are to the machine. -/
def lsSockaddrCmp : Option SockAddr → Option SockAddr → Int
  | none, none => 0
  | none, some _ => -1
  | some _, none => 1
  | some sa, some sb =>
      let diff := sa.saFamily - sb.saFamily
      if diff ≠ 0 then diff
      else
        match sa, sb with
        | .inet portA addressA, .inet portB addressB =>
            let diff := (addressA - addressB).toInt
            if diff ≠ 0 then diff else (portA.toNat : Int) - portB.toNat
        | .inet6 portA addressA, .inet6 portB addressB =>
            let diff := lsAddrCmp6 addressA addressB
            if diff ≠ 0 then diff else (portA.toNat : Int) - portB.toNat
        | _, _ => 0

/-- NULL, or an IPv4 or IPv6 address. -/
def Internet : Set (Option SockAddr) := { addr | ∀ sa, addr = some sa → sa.isInternet = true }

/-- The IPv4 addresses are among `2 ^ 31` that follow each other on the circle. -/
def Windowed (domain : Set (Option SockAddr)) : Prop :=
  ∃ base : BitVec 32, ∀ port address, some (.inet port address) ∈ domain →
    (address - base).toNat < 2 ^ 31

/-- What an address is compared by: its family, its bytes or its distance from `base`, and its
port. -/
def SockAddr.rank (base : BitVec 32) : SockAddr → List Nat
  | .inet port address => [2, (address - base).toNat, port.toNat]
  | .inet6 port address => 10 :: ((in6Bytes address).map UInt8.toNat ++ [port.toNat])
  | .other family => [family.toNat]

def rank (base : BitVec 32) : Option SockAddr → List Nat
  | none => []
  | some sa => sa.rank base

section Inet6

theorem agrees_memcmp {as bs : List UInt8} (length : as.length = bs.length) (portA portB : Nat) :
    Agrees (if memcmp as bs ≠ 0 then memcmp as bs else (portA : Int) - portB)
      (as.map UInt8.toNat ++ [portA]) (bs.map UInt8.toNat ++ [portB]) := by
  induction as generalizing bs with
  | nil =>
    obtain rfl := List.length_eq_zero_iff.mp length.symm
    have ports := agrees_cons (agrees_sub portA portB)
      (⟨by simp, by simp⟩ : Agrees 0 ([] : List Nat) [])
    by_cases same : (portA : Int) - portB = 0
    · simpa [memcmp, same] using ports
    · simpa [memcmp, same] using ports
  | cons a as inductionHypothesis =>
    cases bs with
    | nil => cases length
    | cons b bs =>
      have whole := agrees_cons (agrees_sub a.toNat b.toNat)
        (inductionHypothesis (Nat.succ.inj length))
      by_cases same : (a.toNat : Int) - b.toNat = 0
      · simpa [memcmp, same] using whole
      · simpa [memcmp, same] using whole

theorem length_in6Bytes (address : BitVec 128) : (in6Bytes address).length = 16 := by
  rw [in6Bytes, List.length_map, List.length_range]

theorem in6Bytes_injective {a b : BitVec 128} (same : in6Bytes a = in6Bytes b) : a = b := by
  have bytes := List.map_inj_left.mp same
  apply BitVec.eq_of_getLsbD_eq
  intro i inside
  have byte := congrArg UInt8.toBitVec (bytes (15 - i / 8) (List.mem_range.mpr (by omega)))
  have bit := congrArg (fun bits : BitVec 8 => bits.getLsbD (i % 8)) byte
  have place : 8 * (15 - (15 - i / 8)) + i % 8 = i := by omega
  have small : i % 8 < 8 := Nat.mod_lt _ (by omega)
  simpa [BitVec.getLsbD_extractLsb', small, place] using bit

end Inet6

section Inet

/-- Within half of the circle the difference is that of the distances. -/
theorem toInt_sub_of_near {a b base : BitVec 32} (nearA : (a - base).toNat < 2 ^ 31)
    (nearB : (b - base).toNat < 2 ^ 31) :
    (a - b).toInt = ((a - base).toNat : Int) - (b - base).toNat := by
  rw [BitVec.toInt_eq_toNat_cond]
  have a := a.isLt
  have b := b.isLt
  have base := base.isLt
  simp only [BitVec.toNat_sub] at *
  omega

theorem toNat_sub_of_nonneg {a b : BitVec 32} (nonneg : 0 ≤ (a - b).toInt) :
    (a - b).toNat < 2 ^ 31 := by
  rw [BitVec.toInt_eq_toNat_cond] at nonneg
  have inside := (a - b).isLt
  omega

theorem distance_injective {a b base : BitVec 32} (same : a - base = b - base) : a = b := by
  rw [← BitVec.sub_add_cancel a base, same, BitVec.sub_add_cancel]

theorem toInt_sub_eq_zero {a b : BitVec 32} : (a - b).toInt = 0 ↔ a = b := by
  rw [show (0 : Int) = (0#32 : BitVec 32).toInt from rfl, BitVec.toInt_inj]
  constructor
  · intro zero
    exact BitVec.sub_eq_iff_eq_add.mp zero |>.trans (BitVec.zero_add b)
  · rintro rfl
    exact BitVec.sub_self a

end Inet

variable {domain : Set (Option SockAddr)}

theorem rank_injective {base : BitVec 32} {a b : Option SockAddr} (internetA : a ∈ Internet)
    (internetB : b ∈ Internet) (same : rank base a = rank base b) : a = b := by
  rcases a with _ | portA | portA | family
  · rcases b with _ | port | port | family
    · rfl
    · cases same
    · cases same
    · cases internetB _ rfl
  · rcases b with _ | portB | portB | family
    · cases same
    · rename_i addressA addressB
      simp only [rank, SockAddr.rank, List.cons.injEq, and_true, true_and] at same
      obtain ⟨address, port⟩ := same
      rw [distance_injective (BitVec.eq_of_toNat_eq address), UInt16.toNat.inj port]
    · simp [rank, SockAddr.rank] at same
    · cases internetB _ rfl
  · rcases b with _ | portB | portB | family
    · cases same
    · simp [rank, SockAddr.rank] at same
    · rename_i addressA addressB
      simp only [rank, SockAddr.rank, List.cons.injEq, true_and] at same
      obtain ⟨bytes, port⟩ := List.append_inj' same rfl
      have equal := in6Bytes_injective
        (List.map_injective_iff.mpr (fun _ _ => UInt8.toNat.inj) bytes)
      rw [equal, UInt16.toNat.inj (List.head_eq_of_cons_eq port)]
    · cases internetB _ rfl
  · cases internetA _ rfl

theorem rank_ne_nil (base : BitVec 32) (sa : SockAddr) : sa.rank base ≠ [] := by
  cases sa <;> exact List.cons_ne_nil _ _

theorem agrees_none (base : BitVec 32) (sa : SockAddr) :
    Agrees (lsSockaddrCmp (some sa) none) (rank base (some sa)) (rank base none) :=
  ⟨by simp [lsSockaddrCmp, rank], by simp [lsSockaddrCmp, rank, rank_ne_nil base sa]⟩

theorem agrees_port (portA portB : UInt16) :
    Agrees ((portA.toNat : Int) - portB.toNat) [portA.toNat] [portB.toNat] := by
  have ports := agrees_cons (agrees_sub portA.toNat portB.toNat)
    (⟨by simp, by simp⟩ : Agrees 0 ([] : List Nat) [])
  by_cases same : (portA.toNat : Int) - portB.toNat = 0
  · simpa [same] using ports
  · simpa [same] using ports

theorem agrees_rank {base : BitVec 32} (internet : domain ⊆ Internet)
    (near : ∀ port address, some (.inet port address) ∈ domain →
      (address - base).toNat < 2 ^ 31) {a b : Option SockAddr} (memberA : a ∈ domain)
    (memberB : b ∈ domain) : Agrees (lsSockaddrCmp a b) (rank base a) (rank base b) := by
  rcases a with _ | ⟨portA, addressA⟩ | ⟨portA, addressA⟩ | family
  · rcases b with _ | sb
    · exact ⟨by simp [lsSockaddrCmp], by simp [lsSockaddrCmp]⟩
    · obtain ⟨head, tail, shape⟩ := List.exists_cons_of_ne_nil (rank_ne_nil base sb)
      exact ⟨by simp [lsSockaddrCmp, rank, shape], by simp [lsSockaddrCmp, rank, shape]⟩
  · rcases b with _ | ⟨portB, addressB⟩ | ⟨portB, addressB⟩ | family
    · exact agrees_none base _
    · have address := agrees_sub (addressA - base).toNat (addressB - base).toNat
      rw [← toInt_sub_of_near (near _ _ memberA) (near _ _ memberB)] at address
      exact (agrees_cons address (agrees_port portA portB)).cons 2
    · exact agrees_of_head_ne (agrees_sub 2 10) (by decide) _ _
    · cases internet memberB _ rfl
  · rcases b with _ | ⟨portB, addressB⟩ | ⟨portB, addressB⟩ | family
    · exact agrees_none base _
    · exact agrees_of_head_ne (agrees_sub 10 2) (by decide) _ _
    · have length : (in6Bytes addressA).length = (in6Bytes addressB).length := by
        rw [length_in6Bytes, length_in6Bytes]
      exact (agrees_memcmp length portA.toNat portB.toNat).cons 10
    · cases internet memberB _ rfl
  · cases internet memberA _ rfl

theorem lsSockaddrCmp_inet {portA portB : UInt16} {addressA addressB : BitVec 32}
    (different : addressA ≠ addressB) :
    lsSockaddrCmp (some (.inet portA addressA)) (some (.inet portB addressB)) =
      (addressA - addressB).toInt := by
  have diff := mt toInt_sub_eq_zero.mp different
  simp only [lsSockaddrCmp, SockAddr.saFamily, Int.sub_self, ne_eq, not_true, if_false]
  exact if_pos diff

/-- Where the signs are those of an order, one IPv4 address is less than all others. -/
theorem windowed_of_totallyOrders (orders : TotallyOrders lsSockaddrCmp domain) :
    Windowed domain := by
  let Address := { address : BitVec 32 // ∃ port, some (.inet port address) ∈ domain }
  let Less (a b : Address) : Prop := (a.val - b.val).toInt < 0
  have finite : Finite Address :=
    Finite.of_injective (fun address : Address => address.val.toFin)
      fun a b same => Subtype.ext (BitVec.eq_of_toFin_eq same)
  have irreflexive : ∀ a, ¬ Less a a := fun a less => by simp [Less] at less
  have compared : ∀ a b : Address, ∀ portA portB, Less a b →
      lsSockaddrCmp (some (.inet portA a.val)) (some (.inet portB b.val)) < 0 := by
    intro a b portA portB less
    have different : a.val ≠ b.val := by
      intro same
      cases Subtype.ext same
      exact irreflexive a less
    rw [lsSockaddrCmp_inet different]
    exact less
  have asymmetric : ∀ a b, Less a b → ¬ Less b a := by
    intro a b first second
    obtain ⟨portA, memberA⟩ := a.property
    obtain ⟨portB, memberB⟩ := b.property
    have signs := orders.antisymmetric _ memberA _ memberB
    rw [Int.sign_eq_neg_one_of_neg (compared a b portA portB first),
      Int.sign_eq_neg_one_of_neg (compared b a portB portA second)] at signs
    cases signs
  have transitive : ∀ a b c, Less a b → Less b c → Less a c := by
    intro a b c first second
    obtain ⟨portA, memberA⟩ := a.property
    obtain ⟨portB, memberB⟩ := b.property
    obtain ⟨portC, memberC⟩ := c.property
    have different : a.val ≠ c.val := by
      intro same
      cases Subtype.ext same
      exact asymmetric a b first second
    have atMost := orders.transitive _ memberA _ memberB _ memberC
      (compared a b portA portB first).le (compared b c portB portC second).le
    rw [lsSockaddrCmp_inet different] at atMost
    exact lt_of_le_of_ne atMost (mt toInt_sub_eq_zero.mp different)
  by_cases some : Nonempty Address
  · have wellFounded : WellFounded Less :=
      haveI : IsTrans Address Less := ⟨transitive⟩
      haveI : Std.Irrefl Less := ⟨irreflexive⟩
      Finite.wellFounded_of_trans_of_irrefl Less
    obtain ⟨least, -, minimal⟩ := wellFounded.has_min Set.univ Set.univ_nonempty
    refine ⟨least.val, ?_⟩
    intro port address member
    exact toNat_sub_of_nonneg (not_lt.mp (minimal ⟨address, port, member⟩ trivial))
  · exact ⟨0, fun port address member => absurd ⟨⟨address, port, member⟩⟩ some⟩

/-- `ls_sockaddr_cmp` orders NULL and any internet addresses exactly when the IPv4 addresses
among them lie on half of the circle. -/
theorem lsSockaddrCmp_totallyOrders_iff (internet : domain ⊆ Internet) :
    TotallyOrders lsSockaddrCmp domain ↔ Windowed domain := by
  constructor
  · exact windowed_of_totallyOrders
  · rintro ⟨base, near⟩
    have agrees : ∀ a ∈ domain, ∀ b ∈ domain,
        Agrees (lsSockaddrCmp a b) (rank base a) (rank base b) :=
      fun a memberA b memberB => agrees_rank internet near memberA memberB
    refine totallyOrders_of_agrees agrees ?_
    intro a memberA b memberB same
    exact rank_injective (internet memberA) (internet memberB) same

theorem lsSockaddrCmp_totallyOrders_near :
    TotallyOrders lsSockaddrCmp
      {none, some (.inet 1402 0x0100007f#32), some (.inet 1402 0x0200007f#32),
        some (.inet6 1402 1#128)} := by
  refine (lsSockaddrCmp_totallyOrders_iff ?_).mpr ⟨0#32, ?_⟩
  · rintro _ (rfl | rfl | rfl | rfl) sa same
    all_goals cases same
    all_goals rfl
  · rintro port address (same | same | same | same)
    all_goals cases same
    all_goals decide

/-- Opposite addresses of the circle are each below the other, and three that are a third of the
circle apart follow each other round: no order is behind the signs. -/
theorem not_totallyOrders_internet :
    let inet (address : BitVec 32) := some (SockAddr.inet 0 address)
    lsSockaddrCmp (inet 0) (inet 0x80000000) < 0 ∧ lsSockaddrCmp (inet 0x80000000) (inet 0) < 0 ∧
      lsSockaddrCmp (inet 0x60000000) (inet 0) > 0 ∧
      lsSockaddrCmp (inet 0xc0000000) (inet 0x60000000) > 0 ∧
      lsSockaddrCmp (inet 0xc0000000) (inet 0) < 0 ∧ ¬ TotallyOrders lsSockaddrCmp Internet := by
  have first : lsSockaddrCmp (some (.inet 0 0)) (some (.inet 0 0x80000000)) = -2147483648 := by
    decide
  have second : lsSockaddrCmp (some (.inet 0 0x80000000)) (some (.inet 0 0)) = -2147483648 := by
    decide
  refine ⟨by decide, by decide, by decide, by decide, by decide, ?_⟩
  intro orders
  have internet : ∀ address, some (.inet 0 address) ∈ Internet := by
    intro address sa same
    cases same
    rfl
  have signs := orders.antisymmetric _ (internet 0) _ (internet 0x80000000)
  rw [first, second] at signs
  cases signs

end SpudLib
