import RiscvScratch.Crossing.Pointers
import RiscvScratch.Oz.AsyncFifo

/-! The FIFO neither loses nor reorders a word: its registers stand for counts, and the counts
stay in order. -/
namespace RiscvScratch.AsyncFifo
open Gray (gray)
open Crossing (Counts Edge)

variable {α : Type*} {n : ℕ} {s : State α n} {c : Counts} {ins outs : List α}
  {w : Option (WriteEdge α n)} {r : Option (ReadEdge n)}

theorem flipTop_gray (x : Ptr n) : flipTop (gray x) = gray (x + BitVec.twoPow (n + 3) (n + 2)) := by
  apply BitVec.eq_of_getLsbD_eq
  intro i hi
  rw [Gray.getLsbD_gray_add_half x hi]
  unfold flipTop
  rw [BitVec.getLsbD_cast, BitVec.getLsbD_append]
  by_cases h : i < n + 1
  · simp [h, show ¬n + 2 ≤ i + 1 by omega]
  · simp [h, show i - (n + 1) < 2 by omega, show n + 1 + (i - (n + 1)) = i by omega,
      show n + 2 ≤ i + 1 by omega]

theorem addr_ofNat (k : ℕ) : addr (BitVec.ofNat (n + 3) k) = BitVec.ofNat (n + 2) k := by
  apply BitVec.eq_of_toNat_eq
  unfold addr
  rw [BitVec.extractLsb'_toNat, BitVec.toNat_ofNat, BitVec.toNat_ofNat, Nat.shiftRight_zero]
  exact Nat.mod_mod_of_dvd k (Nat.pow_dvd_pow 2 (by omega))

structure Encodes (c : Counts) (s : State α n) : Prop where
  wbin : s.wbin = BitVec.ofNat _ c.written
  rbin : s.rbin = BitVec.ofNat _ c.read
  w1 : s.rgrayW1 = gray (BitVec.ofNat _ c.w1)
  w2 : s.rgrayW2 = gray (BitVec.ofNat _ c.w2)
  r1 : s.wgrayR1 = gray (BitVec.ofNat _ c.r1)
  r2 : s.wgrayR2 = gray (BitVec.ofNat _ c.r2)

theorem Encodes.wready_iff (h : Encodes c s) (ho : c.Ordered (2 ^ (n + 2))) :
    s.wready = true ↔ c.written ≠ c.w2 + 2 ^ (n + 2) := by
  have hlt : c.w2 + 2 ^ (n + 2) < c.written + 2 ^ (n + 3) := by
    have := ho.stale
    have := ho.behind
    have := ho.nonempty
    have := ho.stale'
    have := ho.behind'
    have := Nat.pow_lt_pow_right (show 1 < 2 by decide) (show n + 2 < n + 3 by omega)
    omega
  have hhalf : BitVec.ofNat (n + 3) c.w2 + BitVec.twoPow (n + 3) (n + 2) =
      BitVec.ofNat (n + 3) (c.w2 + 2 ^ (n + 2)) := by
    rw [BitVec.ofNat_add]
    congr 1
    apply BitVec.eq_of_toNat_eq
    rw [BitVec.toNat_twoPow, BitVec.toNat_ofNat]
  unfold State.wready State.wgray
  rw [bne_iff_ne, h.wbin, h.w2, flipTop_gray, Gray.gray_injective.ne_iff, hhalf, Ne,
    Crossing.ofNat_inj ho.room hlt]

theorem Encodes.rvalid_iff (h : Encodes c s) (ho : c.Ordered (2 ^ (n + 2))) :
    s.rvalid = true ↔ c.read ≠ c.r2 := by
  have hlt : c.r2 < c.read + 2 ^ (n + 3) := by
    have := ho.stale
    have := ho.behind
    have := ho.stale'
    have := ho.behind'
    have := ho.room
    have := Nat.pow_lt_pow_right (show 1 < 2 by decide) (show n + 2 < n + 3 by omega)
    omega
  unfold State.rvalid State.rgray
  rw [bne_iff_ne, h.rbin, h.r2, Gray.gray_injective.ne_iff, Ne,
    Crossing.ofNat_inj ho.nonempty hlt]

def wmoves (s : State α n) (w : Option (WriteEdge α n)) : Bool := w.elim false (accepts s)
def rmoves (s : State α n) (r : Option (ReadEdge n)) : Bool := r.elim false (pops s)

section
variable (s w r)

theorem step_wbin : (step s w r).wbin = if wmoves s w then s.wbin + 1 else s.wbin := by
  cases w <;> cases r <;> rfl

theorem step_rbin : (step s w r).rbin = if rmoves s r then s.rbin + 1 else s.rbin := by
  cases w <;> cases r <;> rfl

theorem step_mem : (step s w r).mem = (w.elim s (writeEdge s)).mem := by
  cases r <;> rfl

end

theorem move_ofNat {p : Ptr n} {k : ℕ} (h : p = BitVec.ofNat _ k) (b : Bool) :
    (if b then p + 1 else p) = BitVec.ofNat _ (k + b.toNat) := by
  cases b with
  | true => rw [h, Bool.toNat_true, BitVec.ofNat_add]; rfl
  | false => rw [h]; rfl

theorem seen_count {x y seen : Ptr n} {k : ℕ} {b : Bool} (hx : x = BitVec.ofNat _ k)
    (hy : y = if b then x + 1 else x) (h : Gray.Sampled (gray x) (gray y) seen) :
    ∃ j, k ≤ j ∧ j ≤ k + b.toNat ∧ seen = gray (BitVec.ofNat _ j) := by
  rw [hy, move_ofNat hx, hx] at h
  exact Crossing.sampled_count (by omega) (by have := Bool.toNat_le b; omega) h

theorem Encodes.step (he : Encodes c s) (ho : c.Ordered (2 ^ (n + 2))) (hs : Sampling s w r) :
    ∃ c' : Counts, c'.Ordered (2 ^ (n + 2)) ∧ Encodes c' (step s w r) ∧
      c'.written = c.written + (wmoves s w).toNat ∧ c'.read = c.read + (rmoves s r).toNat ∧
      (r = none → c'.r1 = c.r1 ∧ c'.r2 = c.r2) ∧
      (r.isSome = true → c.written ≤ c'.r1 ∧ c'.r2 = c.r1) := by
  have hw := move_ofNat he.wbin (wmoves s w)
  have hr := move_ofNat he.rbin (rmoves s r)
  rw [← step_wbin s w r] at hw
  rw [← step_rbin s w r] at hr
  obtain ⟨k, hk⟩ : ∃ k, ∀ e, w = some e → c.read ≤ k ∧ k ≤ c.read + (rmoves s r).toNat ∧
      e.seen = gray (BitVec.ofNat _ k) := by
    cases w with
    | none => exact ⟨0, nofun⟩
    | some e =>
      obtain ⟨k, hk⟩ := seen_count he.rbin (step_rbin s _ r) (hs.write e rfl)
      exact ⟨k, by rintro _ ⟨⟩; exact hk⟩
  obtain ⟨j, hj⟩ : ∃ j, ∀ f, r = some f → c.written ≤ j ∧ j ≤ c.written + (wmoves s w).toNat ∧
      f.seen = gray (BitVec.ofNat _ j) := by
    cases r with
    | none => exact ⟨0, nofun⟩
    | some f =>
      obtain ⟨j, hj⟩ := seen_count he.wbin (step_wbin s w _) (hs.read f rfl)
      exact ⟨j, by rintro _ ⟨⟩; exact hj⟩
  let c' := c.step (w.map fun e => ⟨k, accepts s e⟩) (r.map fun f => ⟨j, pops s f⟩)
  have hwritten : c'.written = c.written + (wmoves s w).toNat := by cases w <;> rfl
  have hread : c'.read = c.read + (rmoves s r).toNat := by cases r <;> rfl
  refine ⟨c', ho.step ⟨?_, ?_, ?_, ?_⟩, ?_, hwritten, hread, ?_, ?_⟩
  · intro e h hm
    obtain ⟨e, -, rfl⟩ := Option.map_eq_some_iff.mp h
    exact (he.wready_iff ho).mp (Bool.and_eq_true_iff.mp hm).2
  · intro f h hm
    obtain ⟨f, -, rfl⟩ := Option.map_eq_some_iff.mp h
    exact (he.rvalid_iff ho).mp (Bool.and_eq_true_iff.mp hm).2
  · intro e h
    obtain ⟨e, he, rfl⟩ := Option.map_eq_some_iff.mp h
    exact ⟨(hk e he).1, hread ▸ (hk e he).2.1⟩
  · intro f h
    obtain ⟨f, hf, rfl⟩ := Option.map_eq_some_iff.mp h
    exact ⟨(hj f hf).1, hwritten ▸ (hj f hf).2.1⟩
  · cases w <;> cases r
    · exact ⟨hw, hr, he.w1, he.w2, he.r1, he.r2⟩
    · exact ⟨hw, hr, he.w1, he.w2, (hj _ rfl).2.2, he.r1⟩
    · exact ⟨hw, hr, (hk _ rfl).2.2, he.w1, he.r1, he.r2⟩
    · exact ⟨hw, hr, (hk _ rfl).2.2, he.w1, (hj _ rfl).2.2, he.r1⟩
  · rintro rfl
    exact ⟨rfl, rfl⟩
  · intro h
    obtain ⟨f, rfl⟩ := Option.isSome_iff_exists.mp h
    exact ⟨(hj f rfl).1, rfl⟩

structure Inv (s : State α n) (ins outs : List α) (c : Counts) : Prop where
  ordered : c.Ordered (2 ^ (n + 2))
  encodes : Encodes c s
  written : c.written = ins.length
  read : c.read = outs.length
  order : outs = ins.take c.read
  mem : ∀ k, c.read ≤ k → k < c.written → ins[k]? = some (s.mem (BitVec.ofNat _ k))

theorem Inv.room (h : Inv s ins outs c) : outs.length ≤ ins.length ∧
    ins.length ≤ outs.length + 2 ^ (n + 2) := by
  have := h.ordered.stale
  have := h.ordered.behind
  have := h.ordered.nonempty
  have := h.ordered.stale'
  have := h.ordered.behind'
  have := h.ordered.room
  rw [← h.written, ← h.read]
  omega

theorem accepted_length (s : State α n) (w : Option (WriteEdge α n)) :
    (accepted s w).length = (wmoves s w).toNat := by
  cases w with
  | none => rfl
  | some e =>
    show (if accepts s e then [e.wdata] else []).length = (accepts s e).toNat
    cases accepts s e <;> rfl

theorem Inv.head (h : Inv s ins outs c) (hv : s.rvalid = true) :
    c.read < c.written ∧ ins[c.read]? = some s.rdata := by
  have hlt : c.read < c.written := by
    have := (h.encodes.rvalid_iff h.ordered).mp hv
    have := h.ordered.nonempty
    have := h.ordered.stale'
    have := h.ordered.behind'
    omega
  refine ⟨hlt, ?_⟩
  unfold State.rdata
  rw [h.encodes.rbin, addr_ofNat]
  exact h.mem c.read le_rfl hlt

theorem Inv.popped_eq (h : Inv s ins outs c) (r : Option (ReadEdge n)) :
    outs ++ popped s r = ins.take (c.read + (rmoves s r).toNat) ∧
      c.read + (rmoves s r).toNat ≤ ins.length := by
  have hroom := h.room
  have hnone : outs ++ [] = ins.take (c.read + 0) ∧ c.read + 0 ≤ ins.length := by
    rw [List.append_nil, Nat.add_zero]
    exact ⟨h.order, h.read ▸ hroom.1⟩
  cases r with
  | none => exact hnone
  | some e =>
    show outs ++ (if pops s e then [s.rdata] else []) = ins.take (c.read + (pops s e).toNat) ∧
      c.read + (pops s e).toNat ≤ ins.length
    cases hp : pops s e with
    | false => exact hnone
    | true =>
      unfold pops at hp
      rw [Bool.and_eq_true] at hp
      obtain ⟨hlt, hget⟩ := h.head hp.2
      refine ⟨?_, by rw [← h.written]; exact hlt⟩
      rw [if_pos rfl, Bool.toNat_true, List.take_add_one, hget, ← h.order]
      rfl

theorem Inv.step (h : Inv s ins outs c) (hs : Sampling s w r) :
    ∃ c', Inv (step s w r) (ins ++ accepted s w) (outs ++ popped s r) c' ∧
      (r = none → c'.r1 = c.r1 ∧ c'.r2 = c.r2) ∧
      (r.isSome = true → c.written ≤ c'.r1 ∧ c'.r2 = c.r1) := by
  obtain ⟨c', ho, he, hw, hr, hr12⟩ := h.encodes.step h.ordered hs
  obtain ⟨hpop, hle⟩ := h.popped_eq r
  have hlen : c'.written = (ins ++ accepted s w).length := by
    rw [hw, List.length_append, accepted_length, h.written]
  have hread : c'.read = (outs ++ popped s r).length := by
    rw [hr, hpop, List.length_take]
    omega
  refine ⟨c', ⟨ho, he, hlen, hread, ?_, fun k hk hk' => ?_⟩, hr12⟩
  · rw [hpop, hr, List.take_append_of_le_length hle]
  · rw [step_mem]
    cases w with
    | none =>
      have hk'' : k < c.written := by simpa [hw, wmoves] using hk'
      show (ins ++ [])[k]? = _
      rw [List.append_nil]
      exact h.mem k (by omega) hk''
    | some e =>
      show (ins ++ if accepts s e then [e.wdata] else [])[k]? =
        some ((if accepts s e then Function.update s.mem (addr s.wbin) e.wdata else s.mem) _)
      have hw' : c'.written = c.written + (accepts s e).toNat := hw
      cases ha : accepts s e with
      | false =>
        rw [ha, Bool.toNat_false, Nat.add_zero] at hw'
        rw [if_neg (by decide), if_neg (by decide), List.append_nil]
        exact h.mem k (by omega) (by omega)
      | true =>
        rw [ha, Bool.toNat_true] at hw'
        rw [if_pos rfl, if_pos rfl, h.encodes.wbin, addr_ofNat]
        rcases Nat.lt_or_ge k c.written with hlt | hge
        · -- the new word goes to another place than the words still to be read
          have hne : BitVec.ofNat (n + 2) k ≠ BitVec.ofNat (n + 2) c.written := by
            rw [Ne, Crossing.ofNat_inj hlt.le ?_]
            · omega
            · unfold accepts at ha
              rw [Bool.and_eq_true] at ha
              have := (h.encodes.wready_iff h.ordered).mp ha.2
              have := h.ordered.stale
              have := h.ordered.behind
              have := h.ordered.room
              omega
          rw [Function.update_of_ne hne, List.getElem?_append_left (by rw [← h.written]; exact hlt)]
          exact h.mem k (by omega) hlt
        · obtain rfl : k = c.written := by omega
          rw [Function.update_self, h.written, List.getElem?_concat_length]

theorem popped_of_not_moves (h : rmoves s r = false) : popped s r = [] := by
  cases r with
  | none => rfl
  | some e =>
    have hp : pops s e = false := h
    simp [popped, hp]

theorem Inv.rvalid_step (h : Inv s ins outs c) (hs : Sampling s w r) (hv : s.rvalid = true)
    (hn : rmoves s r = false) : (AsyncFifo.step s w r).rvalid = true := by
  obtain ⟨c', hc', hnone, hsome⟩ := h.step hs
  have hne := (h.encodes.rvalid_iff h.ordered).mp hv
  have hread : c'.read = c.read := by
    rw [hc'.read, popped_of_not_moves hn, List.append_nil, h.read]
  have hr2 : c.r2 ≤ c'.r2 := by
    cases r with
    | none => exact (hnone rfl).2.ge
    | some e => exact (hsome rfl).2 ▸ h.ordered.stale'
  rw [hc'.encodes.rvalid_iff hc'.ordered, hread]
  have := h.ordered.nonempty
  omega

theorem gray_zero : (0 : Ptr n) = gray (0 : Ptr n) := by
  apply BitVec.eq_of_getLsbD_eq
  intro i _
  simp [Gray.getLsbD_gray]

theorem inv_of_reachable (h : Reachable s ins outs) : ∃ c, Inv s ins outs c := by
  induction h with
  | reset mem =>
    refine ⟨⟨0, 0, 0, 0, 0, 0⟩, ⟨le_rfl, le_rfl, le_rfl, le_rfl, le_rfl, Nat.zero_le _⟩,
      ⟨rfl, rfl, gray_zero, gray_zero, gray_zero, gray_zero⟩, rfl, rfl, rfl, fun k _ hk => ?_⟩
    exact absurd hk (Nat.not_lt_zero k)
  | step _ hs ih =>
    obtain ⟨c, hc⟩ := ih
    obtain ⟨c', hc', -⟩ := hc.step hs
    exact ⟨c', hc'⟩

/-- For every interleaving and sampling the words popped are the first of the words accepted, and no
more than `DEPTH` wait. -/
theorem fifo_in_order {α : Type*} (n : ℕ) (s : State α n) (ins outs : List α)
    (h : Reachable s ins outs) :
    outs <+: ins ∧ ins.length - outs.length ≤ 2 ^ (n + 2) := by
  obtain ⟨c, hc⟩ := inv_of_reachable h
  have := hc.room
  refine ⟨?_, by omega⟩
  rw [hc.order]
  exact List.take_prefix _ _

def writtenFifo : State (BitVec 8) 0 :=
  step (reset fun _ => 0#8) (some ⟨true, 0x41#8, 0#3⟩) (some ⟨false, 1#3⟩)

def crossedFifo : State (BitVec 8) 0 := step writtenFifo none (some ⟨false, 1#3⟩)

def poppedFifo : State (BitVec 8) 0 := step crossedFifo none (some ⟨true, 1#3⟩)

theorem byte_crosses : Reachable poppedFifo [0x41#8] [0x41#8] ∧
    [0x41#8] <+: [0x41#8] ∧ [0x41#8].length - [0x41#8].length ≤ 2 ^ (0 + 2) := by
  have hw : Reachable writtenFifo [0x41#8] [] := by
    refine .step (.reset _) ⟨fun e h => ?_, fun e h => ?_⟩
    · cases h
      exact fun i => .inl rfl
    · cases h
      exact fun i => .inr rfl
  have hc : Reachable crossedFifo [0x41#8] [] := by
    refine hw.step ⟨fun e h => ?_, fun e h => ?_⟩
    · cases h
    · cases h
      exact fun i => .inl rfl
  have hp : Reachable poppedFifo [0x41#8] [0x41#8] := by
    refine hc.step ⟨fun e h => ?_, fun e h => ?_⟩
    · cases h
    · cases h
      exact fun i => .inl rfl
  exact ⟨hp, fifo_in_order 0 poppedFifo [0x41#8] [0x41#8] hp⟩

end RiscvScratch.AsyncFifo
