import RiscvScratch.Image.Loader
import RiscvScratch.Program.Wp

/-! What the loader's transfers write, whatever the source delivers and wherever it stops. -/
namespace RiscvScratch.Rvbi

open ByteMem Program

/-- Between `s` and `s'` only addresses in `A` were stored to. -/
structure Writes (A : BitVec 32 → Prop) (s s' : Machine) : Prop where
  log : ∃ new, s'.wrote = s.wrote ++ new ∧ ∀ x ∈ new, A x
  frame : ∀ x, ¬A x → s'.mem x = s.mem x

variable {A : BitVec 32 → Prop} {s s' : Machine}

theorem Writes.of_eq (hw : s'.wrote = s.wrote)
    (hm : s'.mem = s.mem) : Writes A s s' :=
  ⟨⟨[], by rw [hw, List.append_nil], by simp⟩, fun _ _ => by rw [hm]⟩

theorem Writes.trans {s'' : Machine} (h : Writes A s s')
    (h' : Writes A s' s'') : Writes A s s'' := by
  obtain ⟨new, hnew, hin⟩ := h.log
  obtain ⟨new', hnew', hin'⟩ := h'.log
  refine ⟨⟨new ++ new', by rw [hnew', hnew, List.append_assoc], ?_⟩, ?_⟩
  · intro x hx
    rcases List.mem_append.mp hx with hx | hx
    · exact hin x hx
    · exact hin' x hx
  · intro x hx
    rw [h'.frame x hx, h.frame x hx]

theorem Writes.mono {B : BitVec 32 → Prop} (h : Writes A s s')
    (hAB : ∀ x, A x → B x) : Writes B s s' := by
  obtain ⟨new, hnew, hin⟩ := h.log
  exact ⟨⟨new, hnew, fun x hx => hAB x (hin x hx)⟩, fun x hx => h.frame x fun ha => hx (hAB x ha)⟩

/-- The `data` taken from the source went to `dst`. -/
structure Took (dst : BitVec 32) (data : List (BitVec 8)) (s s' : Machine) : Prop where
  got : s'.got = s.got ++ data
  mem : s'.mem = write s.mem dst data
  writes : Writes (Within dst data.length) s s'

section Transfers

variable (c : Config)

theorem store_wp (a : BitVec 32) (b : BitVec 8) (s : Machine) :
    Wp (store c a b)
      (fun _ s' => s' = { s with mem := Function.update s.mem a b, wrote := s.wrote ++ [a] })
      (fun _ s' => s' = s) s := by
  unfold store
  refine Wp.ite (fun _ => ?_) fun _ => ?_
  · exact wp_modify.mpr rfl
  · exact wp_throw.mpr rfl

theorem store_writes (a : BitVec 32) (b : BitVec 8) (s : Machine) :
    Wp (store c a b)
      (fun _ s' => Writes (Within a 1) s s' ∧ s'.got = s.got ∧ s'.mem = write s.mem a [b])
      (fun _ s' => Writes (Within a 1) s s') s := by
  refine (store_wp c a b s).imp ?_ ?_
  · rintro _ _ rfl
    have ha : Within a 1 a := within_zero one_pos
    refine ⟨⟨⟨[a], rfl, by simpa using ha⟩, fun x hx => ?_⟩, rfl, rfl⟩
    have hne : x ≠ a := fun e => hx (e ▸ ha)
    exact Function.update_of_ne hne _ _
  · rintro _ _ rfl
    exact Writes.of_eq rfl rfl

variable {n : ℕ}

theorem memset_writes (b : BitVec 8) (hn : n ≤ 2 ^ 32) (p : BitVec 32) (s : Machine) :
    Wp (memset c p b n)
      (fun _ s' => Writes (Within p n) s s' ∧ s'.got = s.got)
      (fun _ s' => Writes (Within p n) s s') s := by
  induction n generalizing p s with
  | zero => exact ⟨Writes.of_eq rfl rfl, rfl⟩
  | succ n ih =>
    have hhead : ∀ x, Within p 1 x → Within p (n + 1) x := fun x hx => hx.mono (by omega)
    have htail : ∀ x, Within (p + 1#32) n x → Within p (n + 1) x :=
      fun x hx => within_succ hx (by omega)
    refine (store_writes c p b s).bind ?_ fun _ _ h => h.mono hhead
    rintro _ s₁ ⟨hw, hg, -⟩
    refine (ih (by omega) (p + 1#32) s₁).imp ?_ ?_
    · rintro _ s₂ ⟨hw', hg'⟩
      exact ⟨(hw.mono hhead).trans (hw'.mono htail), hg'.trans hg⟩
    · exact fun _ _ hw' => (hw.mono hhead).trans (hw'.mono htail)

theorem Took.cons {p : BitVec 32} {b : BitVec 8} {data : List (BitVec 8)} {s s₁ s₂ s₃ : Machine}
    (hg : s₁.got = s.got ++ [b]) (hm : s₁.mem = s.mem) (hw : s₁.wrote = s.wrote)
    (h₂ : Writes (Within p 1) s₁ s₂ ∧ s₂.got = s₁.got ∧ s₂.mem = write s₁.mem p [b])
    (h₃ : Took (p + 1#32) data s₂ s₃) (hn : data.length < 2 ^ 32) : Took p (b :: data) s s₃ := by
  obtain ⟨hw₂, hg₂, hm₂⟩ := h₂
  refine ⟨?_, ?_, ?_⟩
  · rw [h₃.got, hg₂, hg, List.append_assoc, List.singleton_append]
  · rw [h₃.mem, hm₂, hm]
    rfl
  · have h₁ : Writes (Within p (data.length + 1)) s s₁ := Writes.of_eq hw hm
    refine h₁.trans ((hw₂.mono fun x hx => hx.mono (by omega)).trans (h₃.writes.mono ?_))
    exact fun x hx => within_succ hx hn

theorem nextByte_wp (err : BitVec 32) (s : Machine) :
    Wp (nextByte err)
      (fun r s' => s'.got = s.got ++ [r.2] ∧ s'.mem = s.mem ∧ s'.wrote = s.wrote)
      (fun _ s' => s'.mem = s.mem ∧ s'.wrote = s.wrote) s := by
  unfold nextByte
  rw [wp_bind, wp_get]
  cases waitByte (BitVec.allOnes 32) err s.line with
  | none => exact ⟨rfl, rfl⟩
  | some r => exact ⟨rfl, rfl, rfl⟩

theorem fetch_wp (s : Machine) :
    Wp (fetch c)
      (fun b s' => s'.got = s.got ++ [b] ∧ s'.mem = s.mem ∧ s'.wrote = s.wrote)
      (fun _ s' => s'.mem = s.mem ∧ s'.wrote = s.wrote) s := by
  unfold fetch
  rw [wp_bind, wp_get]
  refine Wp.ite (fun _ => ?_) fun _ => ?_
  · exact ⟨rfl, rfl, rfl⟩
  · exact ⟨rfl, rfl⟩

theorem turn_took {α β : Type} {next : Rom α} {byte : α → BitVec 8} {rest : α → Rom β}
    {crcOf : β → BitVec 32} (hn : n < 2 ^ 32) {p crc : BitVec 32} {s : Machine}
    (hnext : Wp next
      (fun a s' => s'.got = s.got ++ [byte a] ∧ s'.mem = s.mem ∧ s'.wrote = s.wrote)
      (fun _ s' => s'.mem = s.mem ∧ s'.wrote = s.wrote) s)
    (hrest : ∀ a t, Wp (rest a)
      (fun r s' => ∃ data, data.length = n ∧
        crcOf r = data.foldl crc32Byte (crc32Byte crc (byte a)) ∧ Took (p + 1#32) data t s')
      (fun _ s' => Writes (Within (p + 1#32) n) t s') t) :
    Wp (next >>= fun a => store c p (byte a) >>= fun _ => rest a)
      (fun r s' => ∃ data, data.length = n + 1 ∧ crcOf r = data.foldl crc32Byte crc ∧
        Took p data s s')
      (fun _ s' => Writes (Within p (n + 1)) s s') s := by
  refine hnext.bind ?_ fun _ _ h => Writes.of_eq h.2 h.1
  rintro a s₁ ⟨hg, hm, hw⟩
  have h₁ : Writes (Within p (n + 1)) s s₁ := Writes.of_eq hw hm
  have hhead : ∀ x, Within p 1 x → Within p (n + 1) x := fun x hx => hx.mono (by omega)
  refine (store_writes c p (byte a) s₁).bind ?_ fun _ _ h => h₁.trans (h.mono hhead)
  rintro _ s₂ h₂
  refine (hrest a s₂).imp ?_ ?_
  · rintro r s₃ ⟨data, hlen, hr, h₃⟩
    exact ⟨byte a :: data, by rw [List.length_cons, hlen], hr,
      Took.cons hg hm hw h₂ h₃ (by omega)⟩
  · intro _ s₃ h₃
    exact h₁.trans ((h₂.1.mono hhead).trans (h₃.mono fun x hx => within_succ hx hn))

theorem rxLoop_took (hn : n ≤ 2 ^ 32) (p err crc : BitVec 32) (s : Machine) :
    Wp (rxLoop c p n err crc)
      (fun r s' => ∃ data, data.length = n ∧ r.2 = data.foldl crc32Byte crc ∧ Took p data s s')
      (fun _ s' => Writes (Within p n) s s') s := by
  induction n generalizing p err crc s with
  | zero => exact ⟨[], rfl, rfl, by simp, rfl, Writes.of_eq rfl rfl⟩
  | succ n ih =>
    exact turn_took c (by omega) (nextByte_wp err s) fun a t =>
      ih (by omega) (p + 1#32) a.1 (crc32Byte crc a.2) t

theorem copyLoop_took (hn : n ≤ 2 ^ 32) (p crc : BitVec 32) (s : Machine) :
    Wp (copyLoop c p n crc)
      (fun r s' => ∃ data, data.length = n ∧ r = data.foldl crc32Byte crc ∧ Took p data s s')
      (fun _ s' => Writes (Within p n) s s') s := by
  induction n generalizing p crc s with
  | zero => exact ⟨[], rfl, rfl, by simp, rfl, Writes.of_eq rfl rfl⟩
  | succ n ih =>
    exact turn_took c (by omega) (fetch_wp c s) fun b t =>
      ih (by omega) (p + 1#32) (crc32Byte crc b) t

/-- `get_bytes`: `n` bytes to `dst`, folded into the CRC, and nothing else written. -/
theorem getBytes_took (hn : n ≤ 2 ^ 32) (dst crc : BitVec 32) (s : Machine) :
    Wp (getBytes c dst n crc)
      (fun r s' => ∃ data, data.length = n ∧ r = data.foldl crc32Byte crc ∧ Took dst data s s')
      (fun _ s' => Writes (Within dst n) s s') s := by
  unfold getBytes
  rw [wp_bind, wp_get]
  refine Wp.ite (fun _ => ?_) fun _ => copyLoop_took c hn dst crc s
  unfold rxBytes
  refine (rxLoop_took c hn dst 0#32 crc s).bind ?_ fun _ _ h => h
  rintro ⟨err, crc'⟩ s₁ ⟨data, hlen, hr, h⟩
  exact ⟨data, hlen, hr, h.got, h.mem, h.writes.log, h.writes.frame⟩

end Transfers

end RiscvScratch.Rvbi
