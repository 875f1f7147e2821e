import PageScript.Token.Basic

/-! Sets of token kinds. A set is kept as one number with a binary digit for
each kind, so that sets are joined, met and compared in single steps. -/
namespace PageScript

structure TerminalSet where
  bits : Nat

namespace TerminalSet

instance : Membership Terminal TerminalSet :=
  ⟨fun s k => s.bits.testBit k.ctorIdx = true⟩

def ofList (kinds : List Terminal) : TerminalSet :=
  ⟨kinds.foldr (fun k bits => 1 <<< k.ctorIdx ||| bits) 0⟩

def union (s u : TerminalSet) : TerminalSet :=
  ⟨s.bits ||| u.bits⟩

def inter (s u : TerminalSet) : TerminalSet :=
  ⟨s.bits &&& u.bits⟩

def subset (s u : TerminalSet) : Bool :=
  Nat.beq (s.bits &&& u.bits) s.bits

/-- A kind is in a set if its binary digit is set. -/
theorem mem_def (k : Terminal) (s : TerminalSet) : k ∈ s ↔ s.bits.testBit k.ctorIdx = true :=
  Iff.rfl

theorem ctorIdx_injective {k l : Terminal} (h : k.ctorIdx = l.ctorIdx) : k = l := by
  rw [← Terminal.ofNat_ctorIdx k, h, Terminal.ofNat_ctorIdx]

/-- A set that is made of a list has the kinds of the list. -/
@[simp] theorem mem_ofList (k : Terminal) (kinds : List Terminal) :
    k ∈ ofList kinds ↔ k ∈ kinds := by
  induction kinds with
  | nil => simp [mem_def, ofList]
  | cons l rest ih =>
      have hHead : (1 <<< l.ctorIdx).testBit k.ctorIdx = true ↔ k = l := by
        rw [Nat.one_shiftLeft, Nat.testBit_two_pow, decide_eq_true_iff]
        exact ⟨fun h => (ctorIdx_injective h).symm, fun h => h ▸ rfl⟩
      rw [mem_def] at ih ⊢
      simp only [ofList, List.foldr_cons, Nat.testBit_or, Bool.or_eq_true, hHead, List.mem_cons]
      exact or_congr_right ih

@[simp] theorem mem_union (k : Terminal) (s u : TerminalSet) :
    k ∈ s.union u ↔ k ∈ s ∨ k ∈ u := by
  simp [mem_def, union]

/-- The intersection of two sets has the kinds that both have. -/
@[simp] theorem mem_inter (k : Terminal) (s u : TerminalSet) :
    k ∈ s.inter u ↔ k ∈ s ∧ k ∈ u := by
  simp [mem_def, inter]

/-- A set has all kinds of a set that is included in it. -/
theorem mem_of_subset {s u : TerminalSet} (h : s.subset u = true) {k : Terminal} (hk : k ∈ s) :
    k ∈ u := by
  have hBits : s.bits &&& u.bits = s.bits := Nat.eq_of_beq_eq_true h
  have hBoth : k ∈ s.inter u := by rwa [mem_def, inter, hBits]
  exact ((mem_inter k s u).mp hBoth).2

end TerminalSet

end PageScript
