import Mathlib.Data.Fintype.Option
import Mathlib.Tactic

/-! A request and its acknowledgement as toggles between two clock domains. The serving side sees
`req` through two flops, fires one pulse when the third disagrees, captures the answer an edge later
and flips `ack`, which comes back the same way. -/
namespace Crossing

structure Toggle where
  req : Bool
  c1 : Bool
  c2 : Bool
  c3 : Bool
  fired : Bool
  captured : Bool
  ack : Bool
  a1 : Bool
  a2 : Bool
  a3 : Bool
  deriving DecidableEq

namespace Toggle

/-- An edge of the asking clock (`a`, what is seen of `ack`) and of the serving clock (`c`, what is
seen of `req`). -/
def step (t : Toggle) (ask : Bool) (a c : Option Bool) : Toggle where
  req := t.req ^^ ask
  c1 := c.getD t.c1
  c2 := if c.isSome then t.c1 else t.c2
  c3 := if c.isSome then t.c2 else t.c3
  fired := if c.isSome then t.c2 != t.c3 else t.fired
  captured := if c.isSome then t.fired else t.captured
  ack := t.ack ^^ (c.isSome && t.captured)
  a1 := a.getD t.a1
  a2 := if a.isSome then t.a1 else t.a2
  a3 := if a.isSome then t.a2 else t.a3

def Sampled (t : Toggle) (ask : Bool) (a c : Option Bool) : Prop :=
  (∀ v, c = some v → v = t.req ∨ v = (t.step ask a c).req) ∧
    ∀ v, a = some v → v = t.ack ∨ v = (t.step ask a c).ack

instance (t : Toggle) (ask : Bool) (a c : Option Bool) : Decidable (t.Sampled ask a c) := by
  unfold Sampled
  infer_instance

/-- The handshake with `k` flops still to go: none at rest, eight right after the request. -/
def pending (k : ℕ) (req : Bool) : Toggle where
  req := req
  c1 := req ^^ decide (8 ≤ k)
  c2 := req ^^ decide (7 ≤ k)
  c3 := req ^^ decide (6 ≤ k)
  fired := decide (k = 5)
  captured := decide (k = 4)
  ack := req ^^ decide (4 ≤ k)
  a1 := req ^^ decide (3 ≤ k)
  a2 := req ^^ decide (2 ≤ k)
  a3 := req ^^ decide (1 ≤ k)

def Next (k : ℕ) (ask a c : Bool) (k' : ℕ) : Prop :=
  if ask then k' = 8 ∨ (c = true ∧ k' = 7)
  else if 4 < k then k' = k - c.toNat
  else if k = 4 then if c then k' = 3 ∨ (a = true ∧ k' = 2) else k' = 4
  else k' = k - a.toNat

instance (k : ℕ) (ask a c : Bool) (k' : ℕ) : Decidable (Next k ask a c k') := by
  unfold Next
  infer_instance

theorem pending_step {k : Fin 9} {req ask : Bool} {a c : Option Bool}
    (hask : ask = true → k = 0 ∧ a.isSome = true) (hs : (pending k req).Sampled ask a c) :
    ∃ k' : Fin 9, (pending k req).step ask a c = pending k' (req ^^ ask) ∧
      Next k ask a.isSome c.isSome k' := by
  revert k req ask a c
  decide +kernel

end Toggle
end Crossing
