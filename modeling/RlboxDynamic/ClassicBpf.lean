import Mathlib.Data.List.Basic
import Mathlib.Tactic.Common

/-! Classic BPF as the kernel runs a filter: one accumulator, word loads from
the record it judges, compares with a constant that jump forward, and a 32-bit
verdict. Nothing here names a particular filter. -/
namespace RlboxDynamic.ClassicBpf

/-- `struct sock_filter`. The offsets `jt` and `jf` count from the next
instruction. -/
structure SockFilter where
  code : BitVec 16
  jt : BitVec 8
  jf : BitVec 8
  k : BitVec 32
  deriving DecidableEq, Repr

/-! The fields of `code`. -/

def bpfLd : BitVec 16 := 0x00
def bpfJmp : BitVec 16 := 0x05
def bpfRet : BitVec 16 := 0x06
def bpfW : BitVec 16 := 0x00
def bpfAbs : BitVec 16 := 0x20
def bpfJeq : BitVec 16 := 0x10
def bpfJge : BitVec 16 := 0x30
def bpfK : BitVec 16 := 0x00

inductive Compare where
  | jeq
  | jge
  deriving DecidableEq, Repr

def Compare.holds : Compare → BitVec 32 → BitVec 32 → Bool
  | .jeq, acc, k => decide (acc = k)
  | .jge, acc, k => decide (k ≤ acc)

inductive Op where
  | load
  | jump (test : Compare)
  | ret
  deriving DecidableEq, Repr

def decode (code : BitVec 16) : Option Op :=
  if code = bpfLd ||| bpfW ||| bpfAbs then some .load
  else if code = bpfJmp ||| bpfJeq ||| bpfK then some (.jump .jeq)
  else if code = bpfJmp ||| bpfJge ||| bpfK then some (.jump .jge)
  else if code = bpfRet ||| bpfK then some .ret
  else none

/-- The instruction counter and the accumulator. -/
structure Machine where
  pc : Nat
  acc : BitVec 32

inductive Outcome where
  | next (m : Machine)
  | verdict (k : BitVec 32)

section
variable (load : BitVec 32 → Option (BitVec 32)) (prog : List SockFilter)

/-- One instruction, none where there is none or it cannot be run. -/
def step (m : Machine) : Option Outcome :=
  match prog[m.pc]? with
  | none => none
  | some i =>
    match decode i.code with
    | none => none
    | some .load => (load i.k).map fun word => .next ⟨m.pc + 1, word⟩
    | some (.jump test) =>
      let offset := if test.holds m.acc i.k then i.jt else i.jf
      some (.next ⟨m.pc + 1 + offset.toNat, m.acc⟩)
    | some .ret => some (.verdict i.k)

/-- At most so many instructions. -/
def exec : Nat → Machine → Option (BitVec 32)
  | 0, _ => none
  | fuel + 1, m =>
    match step load prog m with
    | none => none
    | some (.next m) => exec fuel m
    | some (.verdict k) => some k

/-- A whole run. No jump goes back, so that each instruction is run once at
most. -/
def run : Option (BitVec 32) := exec load prog prog.length ⟨0, 0⟩

end

def SockFilter.op (i : SockFilter) : Option Op := decode i.code

/-- Both targets of every jump are instructions of the program. -/
def JumpsInside (prog : List SockFilter) : Prop :=
  ∀ pc i test, prog[pc]? = some i → i.op = some (.jump test) →
    pc + 1 + i.jt.toNat < prog.length ∧ pc + 1 + i.jf.toNat < prog.length

section
variable {load : BitVec 32 → Option (BitVec 32)} {prog rest : List SockFilter} {i : SockFilter}
  {acc k v w : BitVec 32} {test : Compare}

theorem exec_mono {m : Machine} (done : exec load prog fuel m = some k) (more : fuel ≤ fuel') :
    exec load prog fuel' m = some k := by
  induction fuel generalizing m fuel' with
  | zero => cases done
  | succ fuel ih =>
    obtain ⟨left, rfl⟩ : ∃ left, fuel' = left + 1 := ⟨fuel' - 1, by omega⟩
    rw [exec] at done ⊢
    cases stepped : step load prog m with
    | none => simp [stepped] at done
    | some outcome =>
      cases outcome with
      | next m' =>
        simp only [stepped] at done ⊢
        exact ih done (by omega)
      | verdict k' =>
        simp only [stepped] at done ⊢
        exact done

/-- The rest of a program gives the verdict from this accumulator on, whatever
is before it. -/
def Decides (load : BitVec 32 → Option (BitVec 32)) (rest : List SockFilter)
    (acc k : BitVec 32) : Prop :=
  ∀ before, exec load (before ++ rest) rest.length ⟨before.length, acc⟩ = some k

theorem Decides.run_eq (decides : Decides load prog 0 k) : run load prog = some k := decides []

theorem decides_ret (ret : i.op = some .ret) : Decides load (i :: rest) acc i.k := by
  intro before
  rw [SockFilter.op] at ret
  simp [exec, step, ret]

theorem decides_load (loads : i.op = some .load) (found : load i.k = some w)
    (onward : Decides load rest w k) : Decides load (i :: rest) acc k := by
  intro before
  have next := onward (before ++ [i])
  rw [SockFilter.op] at loads
  simp only [List.append_assoc, List.singleton_append, List.length_append,
    List.length_singleton] at next
  simpa [exec, step, loads, found] using next

theorem decides_jump (jumps : i.op = some (.jump test))
    (onward : Decides load (rest.drop (if test.holds acc i.k then i.jt else i.jf).toNat) acc k) :
    Decides load (i :: rest) acc k := by
  intro before
  rw [SockFilter.op] at jumps
  generalize offset : (if test.holds acc i.k then i.jt else i.jf).toNat = n at onward
  by_cases inside : n ≤ rest.length
  · have next := onward (before ++ i :: rest.take n)
    have whole : before ++ i :: rest.take n ++ rest.drop n = before ++ i :: rest := by simp
    have place : (before ++ i :: rest.take n).length = before.length + 1 + n := by
      simp [inside]
      omega
    rw [whole, place] at next
    have fuel : (rest.drop n).length ≤ rest.length := by simp
    simpa [exec, step, jumps, offset] using exec_mono next fuel
  · -- past the end there is nothing to decide
    have empty : rest.drop n = [] := List.drop_eq_nil_of_le (by omega)
    rw [empty] at onward
    exact nomatch onward []

/-- A compare and the return it guards: the compare jumps over the return where
it does not hold. -/
theorem decides_pair {r : SockFilter} (jumps : i.op = some (.jump test)) (here : i.jt = 0)
    (skips : i.jf = 1) (ret : r.op = some .ret) (found : test.holds acc i.k = true → r.k = k)
    (onward : test.holds acc i.k = false → Decides load rest acc k) :
    Decides load (i :: r :: rest) acc k := by
  apply decides_jump jumps
  cases holds : test.holds acc i.k with
  | true =>
    rw [← found holds]
    simpa [here] using decides_ret ret
  | false => simpa [skips] using onward holds

/-! Targets, from the end of the program. -/

theorem jumpsInside_nil : JumpsInside [] := by
  intro pc i test at_
  cases at_

theorem jumpsInside_cons :
    JumpsInside (i :: rest) ↔
      (∀ test, i.op = some (.jump test) →
        i.jt.toNat < rest.length ∧ i.jf.toNat < rest.length) ∧ JumpsInside rest := by
  constructor
  · intro inside
    refine ⟨fun test jumps => ?_, fun pc j test found jumps => ?_⟩
    · have := inside 0 i test rfl jumps
      simp only [List.length_cons] at this
      omega
    · have := inside (pc + 1) j test found jumps
      simp only [List.length_cons] at this
      omega
  · rintro ⟨first, later⟩ pc j test found jumps
    rw [List.length_cons]
    cases pc with
    | zero =>
      cases found
      have := first test jumps
      omega
    | succ pc =>
      have := later pc j test found jumps
      omega

theorem jumpsInside_cons_of_not_jump (still : ∀ test, i.op ≠ some (.jump test)) :
    JumpsInside (i :: rest) ↔ JumpsInside rest := by
  rw [jumpsInside_cons]
  exact and_iff_right fun test jumps => absurd jumps (still test)

end
end RlboxDynamic.ClassicBpf
