import Mathlib.Tactic.LinearCombination
import TernaryMachine.Proofs.Execution
/-! # Sums of several words

A number that does not fit in a word takes several, its *limbs*, lowest first; `Limbs.value` is its
integer.  Two such numbers are added limb by limb, and the carry out of each sum goes into the next
one.

* **Exactness.**  `Limbs.Sum.Exact` says that the limbs of a sum and the carry out of its last limb
  lose nothing.  It holds of one limb (`exact_single`) and of sums one after the other
  (`Exact.append`), so it holds of every chain of sums (`exact_chain`).
* **The machine.**  Only the two sums change the carry (`carry_step`), and each is exact with the
  carry that it takes (`exact_step`).  So the sums of a run are a chain, whatever is executed
  between them (`exact_run`). -/

namespace TernaryMachine

namespace Limbs

/-- The integer of a number of several words, lowest first. -/
def value (ws : List Word) : Int :=
  ∑ i ∈ Finset.range ws.length, (ws.getD i .zero).toInt * 3 ^ (9 * i)

@[simp] theorem value_nil : value [] = 0 := rfl

theorem value_cons (w : Word) (ws : List Word) :
    value (w :: ws) = w.toInt + 3 ^ 9 * value ws := by
  rw [value, List.length_cons, Finset.sum_range_succ', value, Finset.mul_sum, add_comm]
  simp only [List.getD_cons_zero, List.getD_cons_succ, mul_zero, pow_zero, mul_one]
  congr 1
  apply Finset.sum_congr rfl
  intro i _
  ring

theorem value_append (as bs : List Word) :
    value (as ++ bs) = value as + 3 ^ (9 * as.length) * value bs := by
  induction as with
  | nil => simp
  | cons a as ih =>
    rw [List.cons_append, value_cons, ih, value_cons, List.length_cons]
    ring

/-! ### Chains of sums -/

/-- The limbs of a sum and the carry out of the last of them. -/
structure Sum where
  limbs : List Word
  carry : Trit

/-- Adds limb by limb, the carry out of each sum going into the next. -/
def chain (sum : Word → Word → Trit → Word.Sum) : List Word → List Word → Trit → Sum
  | a :: as, b :: bs, c =>
    let here := sum a b c
    let rest := chain sum as bs here.carry
    ⟨here.word :: rest.limbs, rest.carry⟩
  | _, _, c => ⟨[], c⟩

/-- Adds with the arithmetic unit: the lowest limbs without a carry, the others with the carry of
the sum before. -/
def addByUnit (a b : Word) (as bs : List Word) (c : Trit) : Sum :=
  let here := AluOp.add.apply a b c
  let rest := chain AluOp.addWithCarry.apply as bs here.carry
  ⟨here.word :: rest.limbs, rest.carry⟩

/-- Whether a sum is exactly that of two numbers and a carry. -/
structure Sum.Exact (s : Sum) (as bs : List Word) (c : Trit) : Prop where
  length_left : s.limbs.length = as.length
  length_right : s.limbs.length = bs.length
  value : value s.limbs + 3 ^ (9 * s.limbs.length) * s.carry.toInt =
    value as + value bs + c.toInt

theorem exact_nil (c : Trit) : Sum.Exact ⟨[], c⟩ [] [] c where
  length_left := rfl
  length_right := rfl
  value := by simp

theorem exact_single (a b : Word) (c : Trit) :
    Sum.Exact ⟨[(a.addWithCarry b c).word], (a.addWithCarry b c).carry⟩ [a] [b] c where
  length_left := rfl
  length_right := rfl
  value := by
    have lossless := Word.toInt_addWithCarry a b c
    simp only [value_cons, value_nil, List.length_singleton, Word.count] at *
    omega

/-- Sums one after the other, the second with the carry of the first. -/
theorem Sum.Exact.append {s t : Sum} {as as' bs bs' : List Word} {c : Trit} (h : s.Exact as bs c)
    (h' : t.Exact as' bs' s.carry) :
    Sum.Exact ⟨s.limbs ++ t.limbs, t.carry⟩ (as ++ as') (bs ++ bs') c where
  length_left := by simp [h.length_left, h'.length_left]
  length_right := by simp [h.length_right, h'.length_right]
  value := by
    have low := h.value
    have high := h'.value
    simp only [value_append, List.length_append, ← h.length_left, ← h.length_right]
    rw [mul_add, pow_add]
    linear_combination low + 3 ^ (9 * s.limbs.length) * high

theorem exact_chain {as bs : List Word} (length : as.length = bs.length) (c : Trit) :
    (chain Word.addWithCarry as bs c).Exact as bs c := by
  induction as generalizing bs c with
  | nil =>
    cases List.length_eq_zero_iff.mp length.symm
    exact exact_nil c
  | cons a as ih =>
    cases bs with
    | nil => cases length
    | cons b bs => exact (exact_single a b c).append (ih (Nat.succ.inj length) _)

/-- A plain sum and a chain of sums with carry after it are exact; a carry at the start is left
out. -/
theorem exact_addByUnit (a b : Word) {as bs : List Word} (length : as.length = bs.length)
    (c : Trit) : (addByUnit a b as bs c).Exact (a :: as) (b :: bs) .zero :=
  (exact_single a b .zero).append (exact_chain length _)

end Limbs

/-! ### Sums on the machine -/

namespace Instruction

def adds (i : Instruction) : Bool :=
  i.opcode == .add || i.opcode == .addc

end Instruction

/-- A sum that a machine executes: the register and the operand before it, and the register after
it. -/
structure Addition where
  opcode : Opcode
  left : Word
  right : Word
  result : Word
deriving DecidableEq

namespace Addition

/-- The carry that goes into sums one after the other: that of the machine before, unless the first
is a plain sum. -/
def carryInto (c : Trit) : List Addition → Trit
  | [] => c
  | s :: _ => if s.opcode = .add then .zero else c

end Addition

namespace Machine

variable {m m' : Machine} {i : Instruction}

/-- The sum that the next step executes, if it executes one. -/
def addition? (m : Machine) : Option Addition :=
  match m.step with
  | ⟨m', .ok i⟩ =>
    if i.adds then
      some ⟨i.opcode, m.registers.get i.x, m.operand i.source, m'.registers.get i.x⟩
    else
      none
  | ⟨_, .error _⟩ => none

/-- The sums that the first `n` steps execute, in their order. -/
def additions (m : Machine) (n : Nat) : List Addition :=
  (List.range n).filterMap fun k => (m.run k).machine.addition?

theorem carry_execute (m : Machine) (h : i.adds = false) :
    (m.execute i).registers.carry = m.registers.carry := by
  obtain ⟨opcode, direction, x, source⟩ := i
  cases opcode
  case add | addc => cases h
  case beq | bgt | blt =>
    simp only [execute, Opcode.aluOp?, jumpIf]
    split <;> rfl
  case lod => cases direction <;> rfl
  case cmp =>
    simp only [execute, Opcode.aluOp?, Registers.setFlag_compare]
  all_goals rfl

/-- A sum leaves its word in the register and its carry in the carry. -/
theorem execute_of_adds (m : Machine) (h : i.adds = true) {c : Trit}
    (taken : c = if i.opcode = .add then .zero else m.registers.carry) :
    (m.execute i).registers.get i.x =
        ((m.registers.get i.x).addWithCarry (m.operand i.source) c).word ∧
      (m.execute i).registers.carry =
        ((m.registers.get i.x).addWithCarry (m.operand i.source) c).carry := by
  obtain ⟨opcode, direction, x, source⟩ := i
  cases opcode
  case add =>
    subst taken
    exact ⟨(Registers.get_set _ _ _ _).trans (if_pos rfl), rfl⟩
  case addc =>
    subst taken
    exact ⟨(Registers.get_set _ _ _ _).trans (if_pos rfl), rfl⟩
  all_goals cases h

theorem carry_step (h : m.step = ⟨m', .ok i⟩) (other : i.adds = false) :
    m'.registers.carry = m.registers.carry := by
  obtain ⟨-, -, rfl⟩ := step_eq_ok_iff.mp h
  show (Machine.execute _ i).registers.carry = _
  rw [carry_execute _ other]
  rfl

theorem addition?_of_step (h : m.step = ⟨m', .ok i⟩) :
    m.addition? = if i.adds then
      some ⟨i.opcode, m.registers.get i.x, m.operand i.source, m'.registers.get i.x⟩ else none := by
  rw [addition?, h]

/-- A step that executes a sum is exact, with the carry of the machine unless the sum is plain. -/
theorem exact_step {s : Addition} (h : m.step = ⟨m', .ok i⟩) (sum : m.addition? = some s) :
    Limbs.Sum.Exact ⟨[s.result], m'.registers.carry⟩ [s.left] [s.right]
      (Addition.carryInto m.registers.carry [s]) := by
  rw [addition?_of_step h] at sum
  split at sum
  · next adds =>
    cases sum
    obtain ⟨-, -, rfl⟩ := step_eq_ok_iff.mp h
    obtain ⟨word, carry⟩ := execute_of_adds
      { m with registers := m.registers.advance i.words } adds rfl
    rw [operand_advance] at word carry
    show Limbs.Sum.Exact ⟨[(Machine.execute _ i).registers.get i.x],
      (Machine.execute _ i).registers.carry⟩ _ _ _
    rw [word, carry]
    exact Limbs.exact_single _ _ _
  · cases sum

theorem additions_succ {n : Nat} (ran : m.run n = ⟨m', .ok n⟩) :
    m.additions (n + 1) = m.additions n ++ m'.addition?.toList := by
  rw [additions, List.range_succ, List.filterMap_append, ← additions, List.filterMap_cons,
    List.filterMap_nil, ran]
  cases m'.addition? <;> rfl

/-- The sums of a run are exact if all but the first take the carry of the one before, whatever is
executed between them. -/
theorem exact_run {n : Nat} (ran : m.run n = ⟨m', .ok n⟩)
    (chained : ∀ s ∈ (m.additions n).tail, s.opcode = .addc) :
    Limbs.Sum.Exact ⟨(m.additions n).map Addition.result, m'.registers.carry⟩
      ((m.additions n).map Addition.left) ((m.additions n).map Addition.right)
      (Addition.carryInto m.registers.carry (m.additions n)) := by
  induction n generalizing m' with
  | zero =>
    cases ran
    exact Limbs.exact_nil _
  | succ n ih =>
    obtain ⟨before, i, ran, stepped⟩ := run_succ_eq_ok_iff.mp ran
    have grows := additions_succ ran
    cases sum : before.addition? with
    | none =>
      have other : i.adds = false := by
        rw [addition?_of_step stepped] at sum
        simpa using sum
      rw [sum, Option.toList_none, List.append_nil] at grows
      rw [grows] at chained ⊢
      rw [carry_step stepped other]
      exact ih ran chained
    | some s =>
      have here := exact_step stepped sum
      rw [sum, Option.toList_some] at grows
      rw [grows] at chained ⊢
      cases earlier : m.additions n with
      | nil =>
        have prior := ih ran (by simp [earlier])
        rw [earlier] at prior
        have carry : before.registers.carry = m.registers.carry := by
          have value := prior.value
          simpa [Addition.carryInto, Trit.toInt_inj] using value
        rw [carry] at here
        exact here
      | cons t ts =>
        rw [earlier] at chained
        have taken : s.opcode = .addc := chained s (by simp)
        have carry : Addition.carryInto before.registers.carry [s] = before.registers.carry := by
          rw [Addition.carryInto, taken, if_neg (by decide)]
        have prior := ih ran (by
          rw [earlier]
          exact fun u mem => chained u (List.mem_append_left _ mem))
        rw [earlier] at prior
        rw [carry] at here
        simp only [List.map_append]
        exact prior.append here

end Machine

namespace Limbs

/-- **Exact sums**: adding limb by limb loses nothing, also when the lowest limbs are added by a
plain sum.  On a machine the carry waits for the next sum, whatever is executed before that one. -/
theorem sums_exact :
    (∀ (as bs : List Word) (c : Trit), as.length = bs.length →
      (chain Word.addWithCarry as bs c).Exact as bs c) ∧
    (∀ (a b : Word) (as bs : List Word) (c : Trit), as.length = bs.length →
      (addByUnit a b as bs c).Exact (a :: as) (b :: bs) .zero) ∧
    (∀ (m m' : Machine) (i : Instruction), m.step = ⟨m', .ok i⟩ →
      i.opcode ≠ .add → i.opcode ≠ .addc → m'.registers.carry = m.registers.carry) ∧
    ∀ (m m' : Machine) (n : Nat), m.run n = ⟨m', .ok n⟩ →
      (∀ s ∈ (m.additions n).tail, s.opcode = .addc) →
        Sum.Exact ⟨(m.additions n).map Addition.result, m'.registers.carry⟩
          ((m.additions n).map Addition.left) ((m.additions n).map Addition.right)
          (Addition.carryInto m.registers.carry (m.additions n)) := by
  refine ⟨fun as bs c length => exact_chain length c,
    fun a b as bs c length => exact_addByUnit a b length c, ?_,
    fun m m' n => Machine.exact_run⟩
  intro m m' i stepped add addc
  exact Machine.carry_step stepped (by simp [Instruction.adds, add, addc])

/-- A carry through two limbs, and the same sum on a machine that copies the first one before it
goes on: `ADD r0, r1`, `MOV r4, r0` and `ADDC r2, r3` in the lowest cells. -/
theorem sums_exact_ripple :
    (chain Word.addWithCarry [.wrap 9841, .wrap 9841] [.wrap 1, .zero] .zero).Exact
        [.wrap 9841, .wrap 9841] [.wrap 1, .zero] .zero ∧
      (addByUnit (.wrap 9841) (.wrap 1) [.wrap 9841] [.zero] .minus).Exact
        [.wrap 9841, .wrap 9841] [.wrap 1, .zero] .zero ∧
      ∃ m : Machine, (m.run 3).result = .ok 3 ∧
        m.additions 3 =
          [⟨.add, .wrap 9841, .wrap 1, .wrap (-9841)⟩,
            ⟨.addc, .wrap 9841, .zero, .wrap (-9841)⟩] ∧
        (m.run 1).machine.step.machine.registers.carry = (m.run 1).machine.registers.carry ∧
        Sum.Exact ⟨[.wrap (-9841), .wrap (-9841)], .plus⟩ [.wrap 9841, .wrap 9841]
          [.wrap 1, .zero] .zero := by
  obtain ⟨m, ran, sums, carry, moved⟩ : ∃ m : Machine, (m.run 3).result = .ok 3 ∧
      m.additions 3 =
        [⟨.add, .wrap 9841, .wrap 1, .wrap (-9841)⟩,
          ⟨.addc, .wrap 9841, .zero, .wrap (-9841)⟩] ∧
      (m.run 3).machine.registers.carry = .plus ∧
      (m.run 1).machine.step.result = .ok ⟨.mov, .load, .r4, .register .r0⟩ :=
    ⟨⟨⟨#v[.wrap 9841, .wrap 1, .wrap 9841, .zero, .zero, .zero, .zero, .zero, .zero],
      .wrap (-9841), .zero, .minus⟩, ((Memory.empty.write (.wrap (-9841)) (.wrap (-9476))).write
        (.wrap (-9840)) (.wrap 765)).write (.wrap (-9839)) (.wrap (-7998)), .running, 0, none⟩,
      by decide +kernel⟩
  have kept := sums_exact.2.2.1 _ _ _ (Outcome.eq_mk moved) (by decide) (by decide)
  have exact := sums_exact.2.2.2 m _ 3 (Outcome.eq_mk ran) (by rw [sums]; decide)
  rw [sums, carry] at exact
  exact ⟨sums_exact.1 _ _ _ rfl, sums_exact.2.1 _ _ _ _ _ rfl, m, ran, sums, kept, exact⟩

end Limbs

end TernaryMachine
