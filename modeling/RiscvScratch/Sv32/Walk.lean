import Mathlib.Data.BitVec
import Mathlib.Tactic

/-! Sv32 address translation: the two-level walk of the privileged architecture, over any way
to fetch a page-table word. Physical addresses have 34 bits. -/
namespace Sv32

abbrev Pte := BitVec 32

def vpn1 (va : BitVec 32) : BitVec 10 := va.extractLsb' 22 10
def vpn0 (va : BitVec 32) : BitVec 10 := va.extractLsb' 12 10

/-- `a = ppn * 4096 + vpn * 4` -/
def pteAddr (ppn : BitVec 22) (vpn : BitVec 10) : BitVec 34 :=
  (ppn ++ 0#12) + (vpn ++ 0#2).setWidth 34

namespace Pte
variable (pte : Pte)

def isLeaf : Bool := pte.getLsbD 1 || pte.getLsbD 3

def invalid : Bool := !pte.getLsbD 0 || (!pte.getLsbD 1 && pte.getLsbD 2)

def ppn : BitVec 22 := pte.extractLsb' 10 22

def aligned : Bool := pte.extractLsb' 10 10 == 0#10

def unaccessed (svade : Bool) : Bool := svade && !pte.getLsbD 6

/-- `{U, X, W, R}`; with Svade there is no W until D is set. -/
def perm (svade : Bool) : BitVec 4 :=
  BitVec.ofBool (pte.getLsbD 4) ++ BitVec.ofBool (pte.getLsbD 3) ++
    BitVec.ofBool (pte.getLsbD 2 && (pte.getLsbD 7 || !svade)) ++ BitVec.ofBool (pte.getLsbD 1)

end Pte

structure Leaf where
  ppn : BitVec 22
  super : Bool
  perm : BitVec 4
  deriving DecidableEq

def Leaf.ofPte (svade super : Bool) (pte : Pte) : Leaf := ⟨pte.ppn, super, pte.perm svade⟩

section walk
variable (svade : Bool) (superOk : Pte → Bool) (fetch : BitVec 34 → Option Pte)
  (root : BitVec 22) (va : BitVec 32)

/-- The second step, from the pointer `pte1`. -/
def walk0 (pte1 : Pte) : Option Leaf :=
  match fetch (pteAddr pte1.ppn (vpn0 va)) with
  | none => none
  | some pte0 =>
    if pte0.invalid || !pte0.isLeaf || pte0.unaccessed svade then none
    else some (.ofPte svade false pte0)

/-- The walk, with the check `superOk` on a level-1 leaf. An unreadable word is a fault. -/
def walkWith : Option Leaf :=
  match fetch (pteAddr root (vpn1 va)) with
  | none => none
  | some pte1 =>
    if pte1.invalid then none
    else if pte1.isLeaf then
      if superOk pte1 && !pte1.unaccessed svade then some (.ofPte svade true pte1) else none
    else walk0 svade fetch va pte1

def walk : Option Leaf := walkWith svade Pte.aligned fetch root va

def reads : List (BitVec 34) :=
  match fetch (pteAddr root (vpn1 va)) with
  | none => []
  | some pte1 =>
    pteAddr root (vpn1 va) ::
      if pte1.invalid || pte1.isLeaf then []
      else if (fetch (pteAddr pte1.ppn (vpn0 va))).isSome then [pteAddr pte1.ppn (vpn0 va)]
      else []

def MisalignedSuper : Prop :=
  ∃ pte1, fetch (pteAddr root (vpn1 va)) = some pte1 ∧ pte1.invalid = false ∧
    pte1.isLeaf = true ∧ pte1.unaccessed svade = false ∧ pte1.aligned = false

variable {svade superOk fetch root va}

theorem walkWith_true (h : ¬ MisalignedSuper svade fetch root va) :
    walkWith svade (fun _ => true) fetch root va = walk svade fetch root va := by
  unfold walk walkWith
  cases hf : fetch (pteAddr root (vpn1 va)) with
  | none => rfl
  | some pte1 =>
    cases hi : pte1.invalid with
    | true => simp [hi]
    | false =>
      cases hl : pte1.isLeaf with
      | false => simp [hi, hl]
      | true =>
        have hok : pte1.unaccessed svade = true ∨ pte1.aligned = true := by
          by_contra hx
          simp only [not_or, Bool.not_eq_true] at hx
          exact h ⟨pte1, hf, hi, hl, hx.1, hx.2⟩
        obtain hu | ha := hok
        · simp [hi, hl, hu]
        · simp [hi, hl, ha]

end walk

inductive Kind
  | load | store
  deriving DecidableEq, Repr

def Kind.cause : Kind → BitVec 32
  | .load => 13#32
  | .store => 15#32

/-- The bit of `{U, X, W, R}` that the access needs besides U. -/
def Kind.bit : Kind → ℕ
  | .load => 0
  | .store => 1

def Leaf.userOk (l : Leaf) (k : Kind) : Bool := l.perm.getLsbD 3 && l.perm.getLsbD k.bit

def Leaf.addr (l : Leaf) (va : BitVec 32) : BitVec 34 :=
  if l.super then l.ppn.extractLsb' 10 12 ++ va.extractLsb' 0 22
  else l.ppn ++ va.extractLsb' 0 12

def userAccess (k : Kind) (found : Option Leaf) (va : BitVec 32) :
    Except (BitVec 32) (BitVec 34) :=
  match found with
  | none => .error k.cause
  | some l => if l.userOk k then .ok (l.addr va) else .error k.cause

end Sv32
