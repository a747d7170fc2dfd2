import Mathlib.Logic.Function.Basic

/-! A consumer of a partitioned log. It delivers the records of a partition one after
the other, asks for its progress to be committed behind each, and goes back to what is
committed when it is reassigned or started again. A commit may land late, out of order,
or never. -/

structure Consumer (π : Type*) where
  /-- The offset of the next record. -/
  position : π → Nat
  /-- The commits that were asked for, each as the offset behind what was delivered. -/
  requested : π → List Nat
  committed : π → Nat

namespace Consumer

variable {π : Type*}

def start : Consumer π := ⟨fun _ => 0, fun _ => [], fun _ => 0⟩

section
variable [DecidableEq π]

def deliver (consumer : Consumer π) (partition : π) : Consumer π :=
  let next := consumer.position partition + 1
  { consumer with
    position := Function.update consumer.position partition next
    requested := Function.update consumer.requested partition (consumer.requested partition ++ [next]) }

def commit (consumer : Consumer π) (partition : π) (offset : Nat) : Consumer π :=
  { consumer with committed := Function.update consumer.committed partition offset }

def rewind (consumer : Consumer π) (partition : π) : Consumer π :=
  { consumer with position := Function.update consumer.position partition (consumer.committed partition) }

end

def restart (consumer : Consumer π) : Consumer π := { consumer with position := consumer.committed }

/-- Wherever the consumer is or may go back to, every record before has been seen. -/
structure Covers (seen : π → Nat → Prop) (consumer : Consumer π) : Prop where
  position : ∀ partition offset, offset < consumer.position partition → seen partition offset
  requested : ∀ partition, ∀ mark ∈ consumer.requested partition, ∀ offset < mark, seen partition offset
  committed : ∀ partition offset, offset < consumer.committed partition → seen partition offset

variable {seen later : π → Nat → Prop} {consumer : Consumer π}

theorem covers_start : (start : Consumer π).Covers seen where
  position _ _ below := absurd below (Nat.not_lt_zero _)
  requested _ _ none := (by cases none)
  committed _ _ below := absurd below (Nat.not_lt_zero _)

theorem Covers.mono (covers : consumer.Covers seen) (grows : ∀ partition offset, seen partition offset → later partition offset) :
    consumer.Covers later where
  position partition offset below := grows _ _ (covers.position partition offset below)
  requested partition mark member offset below := grows _ _ (covers.requested partition mark member offset below)
  committed partition offset below := grows _ _ (covers.committed partition offset below)

theorem Covers.restart (covers : consumer.Covers seen) : consumer.restart.Covers seen :=
  { covers with position := covers.committed }

variable [DecidableEq π] {partition other : π}

@[simp] theorem deliver_position : (consumer.deliver partition).position other =
    if other = partition then consumer.position partition + 1 else consumer.position other :=
  Function.update_apply ..

theorem deliver_requested : (consumer.deliver partition).requested other =
    if other = partition then consumer.requested partition ++ [consumer.position partition + 1]
    else consumer.requested other :=
  Function.update_apply ..

@[simp] theorem rewind_position : (consumer.rewind partition).position other =
    if other = partition then consumer.committed partition else consumer.position other :=
  Function.update_apply ..

theorem commit_committed {mark : Nat} : (consumer.commit partition mark).committed other =
    if other = partition then mark else consumer.committed other :=
  Function.update_apply ..

theorem Covers.rewind (covers : consumer.Covers seen) : (consumer.rewind partition).Covers seen :=
  { covers with
    position := by
      intro other offset below
      rw [rewind_position] at below
      split at below
      next here => exact covers.committed other offset (here ▸ below)
      next => exact covers.position other offset below }

theorem Covers.commit (covers : consumer.Covers seen) {mark : Nat} (asked : mark ∈ consumer.requested partition) :
    (consumer.commit partition mark).Covers seen :=
  { covers with
    committed := by
      intro other offset below
      rw [commit_committed] at below
      split at below
      next here => exact covers.requested other mark (here ▸ asked) offset below
      next => exact covers.committed other offset below }

theorem Covers.deliver (covers : consumer.Covers seen) (now : seen partition (consumer.position partition)) :
    (consumer.deliver partition).Covers seen := by
  have behind (offset : Nat) (below : offset < consumer.position partition + 1) : seen partition offset := by
    rcases Nat.lt_succ_iff_lt_or_eq.mp below with earlier | rfl
    · exact covers.position partition offset earlier
    · exact now
  refine ⟨fun other offset below => ?_, fun other mark member offset below => ?_, covers.committed⟩
  · rw [deliver_position] at below
    split at below
    next here => exact here ▸ behind offset below
    next => exact covers.position other offset below
  · rw [deliver_requested] at member
    split at member
    next here =>
      rcases List.mem_append.mp member with earlier | last
      · exact here ▸ covers.requested partition mark earlier offset below
      · exact here ▸ behind offset (List.mem_singleton.mp last ▸ below)
    next => exact covers.requested other mark member offset below

end Consumer
