import Mathlib.Algebra.Order.BigOperators.Group.List
import Mathlib.Tactic.Linarith
import Omniscient.Proofs.SettlementLegs

/-! When the share transfers of a batch go through. A list of transfers in which no
account both gives and receives is carried out exactly when every transfer is
permitted and every account can pay all it gives, in whatever order they come. -/

namespace Omniscient.SettlementExchange
open Outcome

variable {σ κ : Type} {env : Env σ κ} {permitted : κ → Address → Address → Address → Prop} {ctf final : κ}
  {move : Transfer} {moves : List Transfer} {entries : List Entry}

def given (moves : List Transfer) (account : Address) (position : Uint256) : Nat :=
  (moves.map fun move => if move.holder = account ∧ move.positionId = position then move.amount.toNat else 0).sum

def received (moves : List Transfer) (account : Address) (position : Uint256) : Nat :=
  (moves.map fun move => if move.recipient = account ∧ move.positionId = position then move.amount.toNat else 0).sum

@[simp] theorem given_cons (account : Address) (position : Uint256) : given (move :: moves) account position =
    (if move.holder = account ∧ move.positionId = position then move.amount.toNat else 0) +
      given moves account position := by
  simp [given]

@[simp] theorem received_cons (account : Address) (position : Uint256) : received (move :: moves) account position =
    (if move.recipient = account ∧ move.positionId = position then move.amount.toNat else 0) +
      received moves account position := by
  simp [received]

theorem given_absent {account : Address} {position : Uint256} (absent : ∀ move ∈ moves, move.holder ≠ account) :
    given moves account position = 0 := by
  apply List.sum_eq_zero
  intro amount counted
  obtain ⟨move, member, rfl⟩ := List.mem_map.mp counted
  exact if_neg fun same => absent move member same.1

def OneWay (moves : List Transfer) : Prop := ∀ move ∈ moves, ∀ other ∈ moves, move.holder ≠ other.recipient

/-- Every transfer is permitted, and every account holds all that it gives. -/
structure Payable (env : Env σ κ) (permitted : κ → Address → Address → Address → Prop) (moves : List Transfer)
    (ctf : κ) : Prop where
  permitted : ∀ move ∈ moves, permitted ctf env.self move.holder move.recipient
  covered : ∀ account position, given moves account position ≤ (env.ctf.balanceOf ctf account position).toNat

def carryOut (env : Env σ κ) (moves : List Transfer) (ctf : κ) : Except Error κ :=
  each (fun ctf move => transferShares env ctf (some move)) ctf moves

theorem carryOut_cons : carryOut env (move :: moves) ctf = .ok final ↔ ∃ next,
    env.ctf.safeTransferFrom ctf env.self move.holder move.recipient move.positionId move.amount = some next ∧
      carryOut env moves next = .ok final := by
  simp only [carryOut, each_cons, bind_ok, transferShares, orRevert_ok]

theorem each_transferShares (select : Entry → Option Transfer) :
    each (fun ctf (entry : Entry) => transferShares env ctf (select entry)) ctf entries =
      carryOut env (entries.filterMap select) ctf := by
  induction entries generalizing ctf with
  | nil => rfl
  | cons entry entries ih =>
    rw [each_cons, List.filterMap_cons]
    cases selected : select entry with
    | none => exact ih
    | some move =>
      have next : (fun ctf => each (fun ctf (entry : Entry) => transferShares env ctf (select entry)) ctf entries) =
          carryOut env (entries.filterMap select) := funext fun ctf => ih
      rw [next]
      rfl

theorem carryOut_moved (exact : env.ctf.Exact) (ran : carryOut env moves ctf = .ok final) (account : Address)
    (position : Uint256) :
    (env.ctf.balanceOf final account position).toNat + given moves account position =
      (env.ctf.balanceOf ctf account position).toNat + received moves account position := by
  induction moves generalizing ctf with
  | nil =>
    cases ran
    rfl
  | cons move moves ih =>
    obtain ⟨next, once, rest⟩ := carryOut_cons.mp ran
    have first := exact _ _ _ _ _ _ _ once account position
    have later := ih rest
    rw [given_cons, received_cons]
    omega

theorem carryOut_permitted (lawful : env.ctf.Lawful permitted) (ran : carryOut env moves ctf = .ok final) :
    permitted final = permitted ctf := by
  induction moves generalizing ctf with
  | nil =>
    cases ran
    rfl
  | cons move moves ih =>
    obtain ⟨next, once, rest⟩ := carryOut_cons.mp ran
    exact (ih rest).trans (lawful.kept _ _ _ _ _ _ _ once)

private theorem payable_cons (lawful : env.ctf.Lawful permitted) (oneWay : OneWay (move :: moves))
    (fits : ∀ account position,
      (env.ctf.balanceOf ctf account position).toNat + received (move :: moves) account position < 2 ^ 256) :
    (∃ next, env.ctf.safeTransferFrom ctf env.self move.holder move.recipient move.positionId move.amount = some next ∧
      Payable env permitted moves next) ↔ Payable env permitted (move :: moves) ctf := by
  have apart : move.holder ≠ move.recipient := oneWay move List.mem_cons_self move List.mem_cons_self
  have receives_only (position : Uint256) : given moves move.recipient position = 0 :=
    given_absent fun other member => oneWay other (List.mem_cons_of_mem _ member) move List.mem_cons_self
  constructor
  · intro holds
    obtain ⟨next, once, rest⟩ := holds
    obtain ⟨allowed, -, -⟩ := (lawful.moves _ _ _ _ _ _ apart).mp ⟨next, once⟩
    refine ⟨?_, fun account position => ?_⟩
    · intro other member
      rcases List.mem_cons.mp member with rfl | later
      · exact allowed
      · exact lawful.kept _ _ _ _ _ _ _ once ▸ rest.permitted other later
    · have moved := lawful.exact _ _ _ _ _ _ _ once account position
      have paid := rest.covered account position
      rw [given_cons]
      by_cases receives : move.recipient = account
      · subst receives
        rw [receives_only, if_neg fun same => apart same.1]
        exact Nat.zero_le _
      · have nothing : ¬ (move.recipient = account ∧ move.positionId = position) := fun same => receives same.1
        rw [if_neg nothing] at moved
        omega
  · intro payable
    have allowed := payable.permitted move List.mem_cons_self
    have covered := payable.covered move.holder move.positionId
    rw [given_cons, if_pos ⟨rfl, rfl⟩] at covered
    have room := fits move.recipient move.positionId
    rw [received_cons, if_pos ⟨rfl, rfl⟩] at room
    obtain ⟨next, once⟩ := (lawful.moves ctf env.self move.holder move.recipient move.positionId move.amount apart).mpr
      ⟨allowed, BitVec.le_def.mpr (by omega), by omega⟩
    refine ⟨next, once, fun other member => ?_, fun account position => ?_⟩
    · rw [lawful.kept _ _ _ _ _ _ _ once]
      exact payable.permitted other (List.mem_cons_of_mem _ member)
    · have moved := lawful.exact _ _ _ _ _ _ _ once account position
      have paid := payable.covered account position
      rw [given_cons] at paid
      omega

theorem carryOut_iff (lawful : env.ctf.Lawful permitted) (oneWay : OneWay moves)
    (fits : ∀ account position,
      (env.ctf.balanceOf ctf account position).toNat + received moves account position < 2 ^ 256) :
    (∃ final, carryOut env moves ctf = .ok final) ↔ Payable env permitted moves ctf := by
  induction moves generalizing ctf with
  | nil =>
    refine ⟨fun _ => ⟨by simp, by simp [given]⟩, fun _ => ⟨ctf, rfl⟩⟩
  | cons move moves ih =>
    rw [← payable_cons lawful oneWay fits]
    have rest {next : κ}
        (once : env.ctf.safeTransferFrom ctf env.self move.holder move.recipient move.positionId move.amount = some next) :
        (∃ final, carryOut env moves next = .ok final) ↔ Payable env permitted moves next := by
      apply ih
      · exact fun first member second other =>
          oneWay first (List.mem_cons_of_mem _ member) second (List.mem_cons_of_mem _ other)
      · intro account position
        have moved := lawful.exact _ _ _ _ _ _ _ once account position
        have room := fits account position
        rw [received_cons] at room
        omega
    constructor
    · intro holds
      obtain ⟨final, ran⟩ := holds
      obtain ⟨next, once, later⟩ := carryOut_cons.mp ran
      exact ⟨next, once, (rest once).mp ⟨final, later⟩⟩
    · intro holds
      obtain ⟨next, once, payable⟩ := holds
      obtain ⟨final, later⟩ := (rest once).mpr payable
      exact ⟨final, carryOut_cons.mpr ⟨next, once, later⟩⟩

/-- The number ranges of the gateway's order type. -/
structure Entry.Small (entry : Entry) : Prop where
  amount : entry.order.amount.toNat < 2 ^ 64
  price : entry.order.price.toNat < 2 ^ 64
  fill : entry.fill.toNat < 2 ^ 64

def pulls (self : Address) (entries : List Entry) : List Transfer := entries.filterMap (Entry.pull self)

def pushes (self : Address) (entries : List Entry) : List Transfer := entries.filterMap (Entry.push self)

theorem mem_pulls {self : Address} (member : move ∈ pulls self entries) : ∃ entry ∈ entries,
    move = ⟨entry.order.maker, self, entry.order.positionId, entry.fill⟩ := by
  obtain ⟨entry, among, selected⟩ := List.mem_filterMap.mp member
  unfold Entry.pull at selected
  split at selected
  next => exact ⟨entry, among, (Option.some.inj selected).symm⟩
  next => cases selected

theorem mem_pushes {self : Address} (member : move ∈ pushes self entries) : ∃ entry ∈ entries,
    move = ⟨self, entry.order.maker, entry.order.positionId, entry.fill⟩ := by
  obtain ⟨entry, among, selected⟩ := List.mem_filterMap.mp member
  unfold Entry.push at selected
  split at selected
  next => exact ⟨entry, among, (Option.some.inj selected).symm⟩
  next => cases selected

section
variable (foreign : ∀ entry ∈ entries, entry.order.maker ≠ env.self)
include foreign

private theorem pulls_oneWay : OneWay (pulls env.self entries) := by
  intro move member other among
  obtain ⟨entry, inBatch, rfl⟩ := mem_pulls member
  obtain ⟨_, -, rfl⟩ := mem_pulls among
  exact foreign entry inBatch

private theorem pushes_oneWay : OneWay (pushes env.self entries) := by
  intro move member other among
  obtain ⟨_, -, rfl⟩ := mem_pushes member
  obtain ⟨entry, inBatch, rfl⟩ := mem_pushes among
  exact (foreign entry inBatch).symm

end

theorem received_le {select : Entry → Option Transfer} (small : ∀ entry ∈ entries, entry.Small)
    (filled : ∀ move ∈ entries.filterMap select, ∃ entry ∈ entries, move.amount = entry.fill) (account : Address)
    (position : Uint256) : received (entries.filterMap select) account position ≤ entries.length * 2 ^ 64 := by
  have bounded := List.sum_le_card_nsmul ((entries.filterMap select).map fun move =>
    if move.recipient = account ∧ move.positionId = position then move.amount.toNat else 0) (2 ^ 64) (by
      intro amount counted
      obtain ⟨move, member, rfl⟩ := List.mem_map.mp counted
      obtain ⟨entry, inBatch, same⟩ := filled move member
      have bound := (small entry inBatch).fill
      split
      next => rw [same]; exact bound.le
      next => exact Nat.zero_le _)
  rw [List.length_map, smul_eq_mul] at bounded
  exact bounded.trans (Nat.mul_le_mul_right _ (List.length_filterMap_le ..))

structure Deliverable (env : Env σ κ) (permitted : κ → Address → Address → Address → Prop) (entries : List Entry)
    (ctf : κ) : Prop where
  conserved : ∀ position,
    (entries.map fun entry => if entry.order.positionId = position then entry.shares else 0).sum = 0
  pulls : Payable env permitted (pulls env.self entries) ctf
  permitted : ∀ move ∈ pushes env.self entries, permitted ctf env.self move.holder move.recipient
  covered : ∀ account position,
    given (pushes env.self entries) account position + given (SettlementExchange.pulls env.self entries) account position ≤
      (env.ctf.balanceOf ctf account position).toNat + received (SettlementExchange.pulls env.self entries) account position

structure Netted (entries : List Entry) (nets : List (Posting Uint256 256) × Nat) : Prop where
  small : ∀ entry ∈ entries, entry.Small
  room : nets.2 + entries.length ≤ nets.1.length
  cells : ∃ bound, Postings.Bounded bound (nets.1.take nets.2) ∧ bound + entries.length * 2 ^ 64 ≤ 2 ^ 128

private theorem accrueShares_returns {entry : Entry} {nets : List (Posting Uint256 256) × Nat}
    (netted : Netted (entry :: entries) nets) : ∃ next, accrueShares nets entry = .ok next ∧ Netted entries next := by
  obtain ⟨small, room, bound, bounded, fits⟩ := netted
  have later : ∀ entry ∈ entries, entry.Small := fun other member => small other (List.mem_cons_of_mem _ member)
  have fill := (small entry List.mem_cons_self).fill
  have cast := @toInt_small entry.fill (by omega)
  rw [List.length_cons] at room fits
  have rest : bound + entries.length * 2 ^ 64 ≤ 2 ^ 128 := by linarith
  unfold accrueShares
  split
  next => exact ⟨nets, rfl, later, by omega, bound, bounded, rest⟩
  next filled =>
    have counted {delta : Uint256} (size : delta.toInt.natAbs = entry.fill.toNat) : ∃ next,
        Postings.accrue (Error.panic .arithmetic) (.panic .outOfBounds) entry.order.positionId delta nets.1 nets.2 =
          .ok next ∧ Netted entries next := by
      obtain ⟨cells, count, ran, kept⟩ := @Postings.accrue_returns _ _ _ _ (Error.panic .arithmetic) (.panic .outOfBounds)
        entry.order.positionId delta nets.1 nets.2 bound (by omega) bounded
        (Nat.lt_of_lt_of_le (show _ < 2 ^ 129 by omega) (Nat.pow_le_pow_right (by decide) (by decide))) (by decide)
      have accrued := Postings.accrue_ok ran
      have length := accrued.length
      have grown := accrued.grown
      exact ⟨_, ran, later, by dsimp only; omega, _, kept, by omega⟩
    split
    next sell => exact counted (by omega)
    next other =>
      obtain ⟨delta, opposite⟩ := @Word.negSigned_fits _ entry.fill (by omega) (by decide)
      have exact_delta := Word.negSigned_some.mp opposite
      obtain ⟨next, ran, kept⟩ := @counted delta (by omega)
      exact ⟨next, bind_ok.mpr ⟨delta, orRevert_ok.mpr opposite, ran⟩, kept⟩

private theorem checkConserved_returns {nets : List (Posting Uint256 256)} (accounts : (nets.map Posting.account).Nodup)
    (conserved : ∀ position, Postings.net nets position = 0) : ∃ done, each checkConserved () nets = .ok done := by
  obtain ⟨done, ran, -⟩ := @each_returns _ _ _ checkConserved nets () (fun rest _ => ∀ net ∈ rest, net.amount = 0) (by
      intro net rest _ zeros
      refine ⟨(), ?_, fun other member => zeros other (List.mem_cons_of_mem _ member)⟩
      rw [checkConserved, revertIf_ok, Decidable.not_not]
      exact zeros net List.mem_cons_self) (by
    intro net member
    have zero := conserved net.account
    rw [Postings.net_of_mem accounts member] at zero
    exact BitVec.toInt_inj.mp zero)
  exact ⟨done, ran⟩

section
variable (lawful : env.ctf.Lawful permitted) (foreign : ∀ entry ∈ entries, entry.order.maker ≠ env.self)
  (small : ∀ entry ∈ entries, entry.Small) (few : entries.length < 2 ^ 64)
  (held : ∀ account position, (env.ctf.balanceOf ctf account position).toNat < 2 ^ 128)
include lawful foreign small few held

private theorem moves_iff : (∃ pulled final, carryOut env (pulls env.self entries) ctf = .ok pulled ∧
      carryOut env (pushes env.self entries) pulled = .ok final) ↔
    Payable env permitted (pulls env.self entries) ctf ∧
    (∀ move ∈ pushes env.self entries, permitted ctf env.self move.holder move.recipient) ∧
    ∀ account position, given (pushes env.self entries) account position + given (pulls env.self entries) account position ≤
      (env.ctf.balanceOf ctf account position).toNat + received (pulls env.self entries) account position := by
  have inward (account : Address) (position : Uint256) :
      received (pulls env.self entries) account position ≤ entries.length * 2 ^ 64 := by
    refine received_le small (fun move member => ?_) account position
    obtain ⟨entry, among, rfl⟩ := mem_pulls member
    exact ⟨entry, among, rfl⟩
  have outward (account : Address) (position : Uint256) :
      received (pushes env.self entries) account position ≤ entries.length * 2 ^ 64 := by
    refine received_le small (fun move member => ?_) account position
    obtain ⟨entry, among, rfl⟩ := mem_pushes member
    exact ⟨entry, among, rfl⟩
  have pulling := @carryOut_iff _ _ env permitted ctf _ lawful (pulls_oneWay foreign) (fun account position => by
    have bound := inward account position
    have start := held account position
    omega)
  have pushing {pulled : κ} (ran : carryOut env (pulls env.self entries) ctf = .ok pulled) :=
    @carryOut_iff _ _ env permitted pulled _ lawful (pushes_oneWay foreign) (fun account position => by
      have moved := carryOut_moved lawful.exact ran account position
      have bound := inward account position
      have more := outward account position
      have start := held account position
      omega)
  constructor
  · intro holds
    obtain ⟨pulled, final, ran, rest⟩ := holds
    obtain ⟨allowed, covered⟩ := (pushing ran).mp ⟨final, rest⟩
    refine ⟨pulling.mp ⟨pulled, ran⟩, carryOut_permitted lawful ran ▸ allowed, fun account position => ?_⟩
    have moved := carryOut_moved lawful.exact ran account position
    have paid := covered account position
    omega
  · intro holds
    obtain ⟨payable, allowed, covered⟩ := holds
    obtain ⟨pulled, ran⟩ := pulling.mpr payable
    obtain ⟨final, rest⟩ := (pushing ran).mpr ⟨carryOut_permitted lawful ran ▸ allowed, fun account position => by
      have moved := carryOut_moved lawful.exact ran account position
      have paid := covered account position
      omega⟩
    exact ⟨pulled, final, ran, rest⟩

theorem settleCtf_iff : (∃ final, settleCtf env entries ctf = .ok final) ↔ Deliverable env permitted entries ctf := by
  have moving := moves_iff lawful foreign small few held
  constructor
  · intro holds
    obtain ⟨final, ran⟩ := holds
    obtain ⟨conserved, pulled, inward, outward⟩ := settleCtf_ok ran
    rw [each_transferShares] at inward outward
    obtain ⟨payable, allowed, covered⟩ := moving.mp ⟨pulled, final, inward, outward⟩
    exact ⟨conserved, payable, allowed, covered⟩
  · intro holds
    obtain ⟨conserved, payable, allowed, covered⟩ := holds
    obtain ⟨pulled, final, inward, outward⟩ := moving.mpr ⟨payable, allowed, covered⟩
    obtain ⟨nets, accrued, -, -, bound, cells, -⟩ := @each_returns _ _ _ accrueShares entries
      (List.replicate entries.length ⟨0, 0⟩, 0) Netted (fun _ _ _ => accrueShares_returns)
      ⟨small, by simp, 0, ⟨by simp, by simp⟩, by omega⟩
    have zero (position : Uint256) : Postings.net (nets.1.take nets.2) position = 0 := by
      have total := each_sum (fun nets : List (Posting Uint256 256) × Nat => Postings.net (nets.1.take nets.2) position)
        (fun entry : Entry => if entry.order.positionId = position then entry.shares else 0) accrued
        fun _ _ _ _ once => accrueShares_ok once position
      simpa [conserved position] using total
    obtain ⟨done, checked⟩ := checkConserved_returns cells.accounts zero
    refine ⟨final, ?_⟩
    simp only [settleCtf, bind_ok, each_transferShares]
    exact ⟨nets, accrued, done, checked, pulled, inward, outward⟩

end

theorem settleCtf_moved (exact : env.ctf.Exact) (ran : settleCtf env entries ctf = .ok final) (account : Address)
    (position : Uint256) :
    (env.ctf.balanceOf final account position).toNat + given (pulls env.self entries) account position +
        given (pushes env.self entries) account position =
      (env.ctf.balanceOf ctf account position).toNat + received (pulls env.self entries) account position +
        received (pushes env.self entries) account position := by
  obtain ⟨-, pulled, inward, outward⟩ := settleCtf_ok ran
  rw [each_transferShares] at inward outward
  have first := carryOut_moved exact inward account position
  have second := carryOut_moved exact outward account position
  rw [← pulls] at first
  rw [← pushes] at second
  omega

end Omniscient.SettlementExchange
