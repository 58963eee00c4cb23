import RiscvScratch.Image.Confined

/-! A source that delivers known bytes: on an error-free line, or in RAM above the payload area. -/
namespace RiscvScratch.Rvbi

open ByteMem Platform Program

def Clear (line : List Poll) : Prop := ∀ p ∈ line, p.lsr &&& lsrErrors = 0#32

def delivered : List Poll → List (BitVec 8)
  | [] => []
  | p :: ps => if p.lsr &&& lsrDr ≠ 0#32 then p.rbr.setWidth 8 :: delivered ps else delivered ps

def OnLine (l : List (BitVec 8)) (s : Machine) : Prop :=
  s.msrc = 0#32 ∧ Clear s.line ∧ l <+: delivered s.line

/-- `l` stands at `msrc`, in RAM and above everything the loader writes. -/
def InMemory (c : Config) (l : List (BitVec 8)) (s : Machine) : Prop :=
  slice s.mem s.msrc l.length = l ∧ c.payloadEnd.toNat ≤ s.msrc.toNat ∧
    s.msrc.toNat + l.length ≤ ramBase.toNat + c.ramSize.toNat

/-- The next bytes of the image are `l`. -/
def Feeds (c : Config) (l : List (BitVec 8)) (s : Machine) : Prop := OnLine l s ∨ InMemory c l s

/-- `n` bytes at `a` the loader may write to. -/
def Config.Room (c : Config) (a : BitVec 32) (n : ℕ) : Prop :=
  ramBase.toNat ≤ a.toNat ∧ a.toNat + n ≤ c.payloadEnd.toNat

/-- `n` bytes went by: `msrc` moved over them and nothing else was read through it. -/
structure Fetched (n : ℕ) (s s' : Machine) : Prop where
  msrc : s'.msrc.toNat = if s.msrc = 0#32 then 0 else s.msrc.toNat + n
  reads : ∃ new, s'.reads = s.reads ++ new ∧
    ∀ a ∈ new, s.msrc.toNat ≤ a.toNat ∧ a.toNat < s'.msrc.toNat

variable {s s' : Machine}

theorem Fetched.of_eq (hm : s'.msrc = s.msrc) (hr : s'.reads = s.reads) :
    Fetched 0 s s' := by
  refine ⟨?_, [], by rw [hr, List.append_nil], by simp⟩
  rw [hm]
  split
  · next h => rw [h]; rfl
  · rfl

theorem Fetched.carry {n : ℕ} {s'' : Machine} (h : Fetched n s s') (hm : s''.msrc = s'.msrc)
    (hr : s''.reads = s'.reads) : Fetched n s s'' :=
  ⟨by rw [hm, h.msrc], by rw [hr, hm]; exact h.reads⟩

theorem Fetched.trans {n k : ℕ} {s'' : Machine} (h : Fetched n s s') (h' : Fetched k s' s'') :
    Fetched (n + k) s s'' := by
  obtain ⟨new, hnew, hin⟩ := h.reads
  obtain ⟨new', hnew', hin'⟩ := h'.reads
  have hm := h.msrc
  have hm' := h'.msrc
  have hzero : ∀ {x : BitVec 32}, x = 0#32 ↔ x.toNat = 0 := fun {x} => by
    rw [← BitVec.toNat_inj]; rfl
  simp only [hzero] at hm hm'
  refine ⟨?_, new ++ new', by rw [hnew', hnew, List.append_assoc], ?_⟩
  · simp only [hzero]
    split_ifs at hm hm' ⊢ <;> omega
  · intro a ha
    rcases List.mem_append.mp ha with ha | ha
    · have := hin a ha
      split_ifs at hm hm' <;> omega
    · have := hin' a ha
      split_ifs at hm hm' <;> omega

theorem clear_tail {p : Poll} {ps : List Poll} (h : Clear (p :: ps)) : Clear ps :=
  fun q hq => h q (List.mem_cons_of_mem p hq)

theorem waitByte_clear (mask err : BitVec 32) {line : List Poll} {b : BitVec 8}
    {bs : List (BitVec 8)} (hclear : Clear line) (h : delivered line = b :: bs) :
    ∃ e rest, waitByte mask err line = some (e, b, rest) ∧ delivered rest = bs ∧ Clear rest ∧
      e &&& lsrErrors = err &&& lsrErrors := by
  induction line generalizing err with
  | nil => cases h
  | cons p ps ih =>
    have hbits : (err ||| (p.lsr &&& mask)) &&& lsrErrors = err &&& lsrErrors := by
      have hp := hclear p List.mem_cons_self
      have hmask : (p.lsr &&& mask) &&& lsrErrors = 0#32 := by
        rw [BitVec.and_assoc, BitVec.and_comm mask, ← BitVec.and_assoc, hp, BitVec.zero_and]
      rw [BitVec.and_or_distrib_right, hmask, BitVec.or_zero]
    rw [waitByte]
    by_cases hdr : p.lsr &&& lsrDr ≠ 0#32
    · rw [delivered, if_pos hdr] at h
      rw [if_pos hdr]
      obtain ⟨rfl, rfl⟩ := List.cons.inj h
      exact ⟨_, ps, rfl, rfl, clear_tail hclear, hbits⟩
    · rw [delivered, if_neg hdr] at h
      rw [if_neg hdr]
      obtain ⟨e, rest, hw, hd, hc, he⟩ := ih (err ||| (p.lsr &&& mask)) (clear_tail hclear) h
      exact ⟨e, rest, hw, hd, hc, he.trans hbits⟩

section Fed

variable {c : Config}

def Steady (c : Config) (F : List (BitVec 8) → Machine → Prop) : Prop :=
  ∀ l s s', F l s → s'.line = s.line → s'.msrc = s.msrc →
    (∀ x, c.payloadEnd.toNat ≤ x.toNat → s'.mem x = s.mem x) → F l s'

theorem onLine_steady : Steady c OnLine := by
  intro l s s' h hline hmsrc _
  unfold OnLine at h ⊢
  rwa [hline, hmsrc]

theorem inMemory_steady : Steady c (InMemory c) := by
  intro l s s' h _ hmsrc hmem
  obtain ⟨hslice, hlow, hhigh⟩ := h
  have hfits := c.ram_fits
  refine ⟨?_, by rwa [hmsrc], by rwa [hmsrc]⟩
  rw [hmsrc]
  refine Eq.trans (slice_congr (by omega) fun x hx => ?_) hslice
  have := (within_iff (by omega)).mp hx
  exact hmem x (by omega)

theorem feeds_steady : Steady c (Feeds c) := by
  rintro l s s' (h | h) hline hmsrc hmem
  · exact Or.inl (onLine_steady (c := c) l s s' h hline hmsrc hmem)
  · exact Or.inr (inMemory_steady l s s' h hline hmsrc hmem)

/-- `l` went to `dst` and `rest` is still to come. -/
structure Fed (F : List (BitVec 8) → Machine → Prop) (dst : BitVec 32) (l rest : List (BitVec 8))
    (s s' : Machine) : Prop where
  mem : s'.mem = write s.mem dst l
  feeds : F rest s'
  fetched : Fetched l.length s s'
  lineErr : s'.lineErr = s.lineErr

variable {l : List (BitVec 8)} {s : Machine} {n : ℕ} {a : BitVec 32} {b : BitVec 8}

theorem Config.Room.inRam (h : c.Room a (n + 1)) : c.InRam a := by
  have := c.payloadEnd_le
  obtain ⟨hlow, hend⟩ := h
  exact ⟨hlow, by omega⟩

theorem Config.Room.tail (h : c.Room a (n + 1)) :
    c.Room (a + 1#32) n := by
  have hlt := c.payloadEnd.isLt
  obtain ⟨hlow, hend⟩ := h
  have ha : (a + 1#32).toNat = a.toNat + 1 := by bv_omega
  exact ⟨by omega, by omega⟩

theorem store_room (h : c.Room a (n + 1)) (b : BitVec 8) (s : Machine) :
    Wp (store c a b)
      (fun _ s' => s' = { s with mem := Function.update s.mem a b, wrote := s.wrote ++ [a] })
      (fun _ _ => False) s := by
  unfold store
  rw [if_pos h.inRam]
  exact wp_modify.mpr rfl

theorem turn_fed {F : List (BitVec 8) → Machine → Prop} (hsteady : Steady c F) {α β : Type}
    {next : Rom α} {byte : α → BitVec 8} {again : α → Rom β} {A : α → Prop} {B : β → Prop}
    {p : BitVec 32} {rest : List (BitVec 8)} (hroom : c.Room p (l.length + 1))
    (hnext : Wp next (fun a s' => (A a ∧ byte a = b) ∧ s'.mem = s.mem ∧ F (l ++ rest) s' ∧
      Fetched 1 s s' ∧ s'.lineErr = s.lineErr) (fun _ _ => False) s)
    (hagain : ∀ a t, A a → byte a = b → F (l ++ rest) t →
      Wp (again a) (fun r s' => B r ∧ Fed F (p + 1#32) l rest t s') (fun _ _ => False) t) :
    Wp (next >>= fun a => store c p (byte a) >>= fun _ => again a)
      (fun r s' => B r ∧ Fed F p (b :: l) rest s s') (fun _ _ => False) s := by
  refine hnext.bind ?_ fun _ _ h => h
  rintro a s₁ ⟨⟨ha, rfl⟩, hm₁, hf₁, hfetch, herr₁⟩
  refine (store_room hroom (byte a) s₁).bind ?_ fun _ _ h => h
  rintro _ _ rfl
  have hf₂ : F (l ++ rest) { s₁ with
      mem := Function.update s₁.mem p (byte a), wrote := s₁.wrote ++ [p] } := by
    refine hsteady _ _ _ hf₁ rfl rfl fun x hx => Function.update_of_ne ?_ _ _
    rintro rfl
    have := hroom.2
    omega
  refine (hagain a _ ha rfl hf₂).imp ?_ fun _ _ h => h
  rintro r s₃ ⟨hr, h₃⟩
  refine ⟨hr, ?_, h₃.feeds, ?_, h₃.lineErr.trans herr₁⟩
  · rw [h₃.mem, write, ← hm₁]
  · rw [List.length_cons, Nat.add_comm]
    exact hfetch.trans ⟨h₃.fetched.msrc, h₃.fetched.reads⟩

theorem nextByte_fed (err : BitVec 32)
    (h : OnLine (b :: l) s) :
    Wp (nextByte err)
      (fun r s' => (r.1 &&& lsrErrors = err &&& lsrErrors ∧ r.2 = b) ∧ s'.mem = s.mem ∧
        OnLine l s' ∧ Fetched 1 s s' ∧ s'.lineErr = s.lineErr) (fun _ _ => False) s := by
  obtain ⟨hmsrc, hclear, more, hmore⟩ := h
  obtain ⟨e, rest, hw, hd, hc, he⟩ :=
    waitByte_clear (BitVec.allOnes 32) err hclear hmore.symm
  unfold nextByte
  rw [wp_bind, wp_get, hw]
  refine ⟨⟨he, rfl⟩, rfl, ⟨hmsrc, hc, more, hd.symm⟩, ⟨?_, [], ?_, ?_⟩, rfl⟩
  · rw [if_pos hmsrc, hmsrc]; rfl
  · exact (List.append_nil _).symm
  · simp

theorem rxLoop_fed :
    ∀ {p err crc : BitVec 32} {rest : List (BitVec 8)} {s : Machine}, c.Room p l.length →
      OnLine (l ++ rest) s →
      Wp (rxLoop c p l.length err crc)
        (fun r s' => (r.1 &&& lsrErrors = err &&& lsrErrors ∧ r.2 = l.foldl crc32Byte crc) ∧
          Fed OnLine p l rest s s') (fun _ _ => False) s := by
  induction l with
  | nil => exact fun _ h => ⟨⟨rfl, rfl⟩, rfl, h, Fetched.of_eq rfl rfl, rfl⟩
  | cons b l ih =>
    intro p err crc rest s hroom h
    have h : OnLine (b :: (l ++ rest)) s := h
    refine turn_fed (F := OnLine) onLine_steady hroom (nextByte_fed err h) ?_
    rintro ⟨e, b'⟩ t he rfl ht
    refine (ih hroom.tail ht).imp ?_ fun _ _ h => h
    exact fun r s' h' => ⟨⟨h'.1.1.trans he, h'.1.2⟩, h'.2⟩

theorem fetch_fed (h : InMemory c (b :: l) s) :
    Wp (fetch c)
      (fun r s' => (True ∧ r = b) ∧ s'.mem = s.mem ∧ InMemory c l s' ∧ Fetched 1 s s' ∧
        s'.lineErr = s.lineErr) (fun _ _ => False) s := by
  obtain ⟨hslice, hlow, hhigh⟩ := h
  have hfits := c.ram_fits
  have hbase := c.payloadEnd_ge
  have hpos : ramBase.toNat ≤ payloadBase.toNat := by decide
  have hne : s.msrc ≠ 0#32 := by
    intro h0
    rw [h0] at hlow
    exact absurd (hbase.trans hlow) (by decide)
  rw [List.length_cons] at hslice hhigh
  rw [slice] at hslice
  obtain ⟨hb, hrest⟩ := List.cons.inj hslice
  have hadd : (s.msrc + 1#32).toNat = s.msrc.toNat + 1 := by bv_omega
  unfold fetch
  rw [wp_bind, wp_get, if_pos ⟨by omega, by omega⟩]
  refine ⟨⟨trivial, hb⟩, rfl, ⟨hrest, ?_, ?_⟩, ⟨?_, [s.msrc], rfl, ?_⟩, rfl⟩
  · exact hlow.trans (hadd ▸ Nat.le_succ _)
  · exact hadd ▸ (by omega)
  · rw [if_neg hne]; exact hadd
  · intro a ha
    rw [List.mem_singleton.mp ha]
    exact ⟨le_rfl, hadd ▸ Nat.lt_succ_self _⟩

theorem copyLoop_fed :
    ∀ {p crc : BitVec 32} {rest : List (BitVec 8)} {s : Machine}, c.Room p l.length →
      InMemory c (l ++ rest) s →
      Wp (copyLoop c p l.length crc)
        (fun r s' => r = l.foldl crc32Byte crc ∧ Fed (InMemory c) p l rest s s')
        (fun _ _ => False) s := by
  induction l with
  | nil => exact fun _ h => ⟨rfl, rfl, h, Fetched.of_eq rfl rfl, rfl⟩
  | cons b l ih =>
    intro p crc rest s hroom h
    have h : InMemory c (b :: (l ++ rest)) s := h
    refine turn_fed (F := InMemory c) (A := fun _ => True) inMemory_steady hroom (fetch_fed h) ?_
    rintro b' t - rfl ht
    exact ih hroom.tail ht

theorem Feeds.msrc_zero (h : Feeds c l s)
    (hs : s.msrc = 0#32) : OnLine l s := by
  rcases h with h | ⟨-, hlow, -⟩
  · exact h
  · have hbase := c.payloadEnd_ge
    rw [hs] at hlow
    exact absurd (hbase.trans hlow) (by decide)

theorem Feeds.msrc_ne_zero (h : Feeds c l s)
    (hs : s.msrc ≠ 0#32) : InMemory c l s := h.resolve_left fun h => hs h.1

theorem getBytes_fed {dst crc : BitVec 32} {rest : List (BitVec 8)} (hn : l.length = n)
    (hroom : c.Room dst n) (h : Feeds c (l ++ rest) s) :
    Wp (getBytes c dst n crc)
      (fun r s' => r = l.foldl crc32Byte crc ∧ Fed (Feeds c) dst l rest s s')
      (fun _ _ => False) s := by
  subst hn
  unfold getBytes
  rw [wp_bind, wp_get]
  refine Wp.ite (fun hs => ?_) fun hs => ?_
  · unfold rxBytes
    refine (rxLoop_fed hroom (h.msrc_zero hs)).bind ?_ fun _ _ h => h
    rintro ⟨err, crc'⟩ s₁ ⟨⟨herr, hcrc⟩, h₁⟩
    refine ⟨hcrc, h₁.mem, Or.inl h₁.feeds, ⟨h₁.fetched.msrc, h₁.fetched.reads⟩, ?_⟩
    change s₁.lineErr ||| (err &&& lsrErrors) = s.lineErr
    rw [herr, BitVec.zero_and, BitVec.or_zero, h₁.lineErr]
  · refine (copyLoop_fed hroom (h.msrc_ne_zero hs)).imp ?_ fun _ _ h => h
    exact fun r s' h' => ⟨h'.1, h'.2.mem, Or.inr h'.2.feeds, h'.2.fetched, h'.2.lineErr⟩

theorem memset_room : ∀ {p : BitVec 32} {b : BitVec 8} {s : Machine}, c.Room p n →
      Wp (memset c p b n)
        (fun _ s' => s'.mem = write s.mem p (List.replicate n b) ∧ s'.line = s.line ∧
          s'.msrc = s.msrc ∧ s'.reads = s.reads ∧ s'.lineErr = s.lineErr)
        (fun _ _ => False) s := by
  induction n with
  | zero => exact fun _ => ⟨rfl, rfl, rfl, rfl, rfl⟩
  | succ n ih =>
    intro p b s hroom
    refine (store_room hroom b s).bind ?_ fun _ _ h => h
    rintro _ _ rfl
    exact ih hroom.tail

end Fed

end RiscvScratch.Rvbi
