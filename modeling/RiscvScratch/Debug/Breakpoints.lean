import RiscvScratch.Debug.Gdbstub

/-!
The breakpoints of the debug module against the `Z` and `z` packets the server has handled.
-/
namespace RiscvScratch

namespace DebugModule

/-- Breakpoint `i` stops the core at `w`. -/
def Armed (s : State) (i : ℕ) (w : Word) : Prop :=
  s.bpEn[i]? = some true ∧ s.bpAddr[i]? = some w

variable {s : State}

theorem mem_enabled {w : Word} : w ∈ enabled s ↔ ∃ i, Armed s i w := by
  unfold enabled Armed
  simp only [List.mem_map, List.mem_filter]
  constructor
  · rintro ⟨⟨b, v⟩, ⟨hm, rfl⟩, rfl⟩
    obtain ⟨i, hi⟩ := List.mem_iff_getElem?.mp hm
    exact ⟨i, List.getElem?_zip_eq_some.mp hi⟩
  · rintro ⟨i, hi⟩
    exact ⟨(true, w), ⟨List.mem_iff_getElem?.mpr ⟨i, List.getElem?_zip_eq_some.mpr hi⟩, rfl⟩, rfl⟩

theorem armed_set {s' : State} {idx : ℕ} {v : Word} (hen : s'.bpEn = s.bpEn.set idx true)
    (haddr : s'.bpAddr = s.bpAddr.set idx v) (h : idx < s.bpEn.length)
    (h' : idx < s.bpAddr.length) (i : ℕ) (w : Word) :
    Armed s' i w ↔ if i = idx then w = v else Armed s i w := by
  unfold Armed
  rw [hen, haddr]
  split_ifs with hi
  · subst hi
    rw [List.getElem?_set_self h, List.getElem?_set_self h']
    simp [eq_comm]
  · rw [List.getElem?_set_ne (Ne.symm hi), List.getElem?_set_ne (Ne.symm hi)]

theorem armed_clear {s' : State} {idx : ℕ} (hen : s'.bpEn = s.bpEn.set idx false)
    (haddr : s'.bpAddr = s.bpAddr) (h : idx < s.bpEn.length) (i : ℕ) (w : Word) :
    Armed s' i w ↔ i ≠ idx ∧ Armed s i w := by
  unfold Armed
  rw [hen, haddr]
  by_cases hi : i = idx
  · subst hi
    rw [List.getElem?_set_self h]
    simp
  · rw [List.getElem?_set_ne (Ne.symm hi)]
    simp [hi]

end DebugModule

namespace Gdbstub

variable {μ : Type} (e : Setup μ)

theorem wait_dm (n : ℕ) (s : Server μ) : (wait e n s).soc.dm = s.soc.dm := by
  induction n generalizing s with
  | zero => rfl
  | succ n ih => exact (ih _).trans (DebugModule.step_idle nbp s.soc.dm)

theorem wait_slots (n : ℕ) (s : Server μ) : (wait e n s).slots = s.slots := by
  induction n generalizing s with
  | zero => rfl
  | succ n ih => exact ih _

theorem access_dm (d : Dmi) (s : Server μ) :
    (access e d s).soc.dm = DebugModule.step nbp s.soc.dm d := wait_dm e _ _

theorem access_slots (d : Dmi) (s : Server μ) : (access e d s).slots = s.slots :=
  wait_slots e _ _

def selected (idx : ℕ) (a : BitVec 8) (v : ℤ) (s : Server μ) : Server μ :=
  access e (.write a (BitVec.ofInt 32 v))
    (access e (.write DebugModule.bpsel (BitVec.ofInt 32 idx)) s)

theorem selected_slots (idx : ℕ) (a : BitVec 8) (v : ℤ) (s : Server μ) :
    (selected e idx a v s).slots = s.slots := by
  unfold selected
  rw [access_slots, access_slots]

variable {idx : ℕ}

theorem bpsel_written (h : idx < nbp) :
    (BitVec.ofInt 32 idx).toNat % 2 ^ DebugModule.clog2 nbp = idx := by
  unfold nbp at h
  interval_cases idx <;> decide

/-- A write behind `bpsel` acts on the breakpoint selected. -/
theorem selected_bpsel (h : idx < nbp) (reg : BitVec 8) (v : ℤ) (s : Server μ) :
    ∃ dm : DebugModule.State, dm.bpsel = idx ∧ dm.bpEn = s.soc.dm.bpEn ∧
      dm.bpAddr = s.soc.dm.bpAddr ∧ (selected e idx reg v s).soc.dm =
        DebugModule.step nbp dm (.write reg (BitVec.ofInt 32 v)) := by
  unfold selected
  rw [access_dm, access_dm]
  refine ⟨DebugModule.step nbp s.soc.dm (.write DebugModule.bpsel (BitVec.ofInt 32 idx)), ?_, rfl,
    rfl, rfl⟩
  exact bpsel_written h

theorem selected_bpset (h : idx < nbp) (v : ℤ) (s : Server μ) :
    (selected e idx DebugModule.bpset v s).soc.dm.bpEn = s.soc.dm.bpEn.set idx true ∧
      (selected e idx DebugModule.bpset v s).soc.dm.bpAddr =
        s.soc.dm.bpAddr.set idx (BitVec.ofInt 32 v) := by
  obtain ⟨dm, hsel, hen, haddr, hdm⟩ := selected_bpsel e h DebugModule.bpset v s
  rw [hdm, ← hsel, ← hen, ← haddr]
  exact ⟨rfl, rfl⟩

theorem selected_bpclr (h : idx < nbp) (v : ℤ) (s : Server μ) :
    (selected e idx DebugModule.bpclr v s).soc.dm.bpEn = s.soc.dm.bpEn.set idx false ∧
      (selected e idx DebugModule.bpclr v s).soc.dm.bpAddr = s.soc.dm.bpAddr := by
  obtain ⟨dm, hsel, hen, haddr, hdm⟩ := selected_bpsel e h DebugModule.bpclr v s
  rw [hdm, ← hsel, ← hen, ← haddr]
  exact ⟨rfl, rfl⟩

theorem setBp_eq (a : ℤ) (s : Server μ) :
    setBp e a s = .ok ⟨⟩ (selected e (s.slots.length % nbp) DebugModule.bpset a
      { s with slots := setSlot s.slots a (s.slots.length % nbp) }) := rfl

theorem clrBp_absent {a : ℤ} {s : Server μ} (h : s.slots.lookup a = none) :
    clrBp e a s = .ok ⟨⟩ s := by
  have hget : (get : Stub μ (Server μ)) s = .ok s s := rfl
  simp only [clrBp, bind, EStateM.bind, hget, h]
  rfl

theorem clrBp_present {a : ℤ} {s : Server μ} (h : s.slots.lookup a = some idx) :
    clrBp e a s = .ok ⟨⟩ { selected e idx DebugModule.bpclr 0 s with
      slots := (selected e idx DebugModule.bpclr 0 s).slots.filter (·.1 != a) } := by
  have hget : (get : Stub μ (Server μ)) s = .ok s s := rfl
  simp only [clrBp, bind, EStateM.bind, hget, h]
  rfl

/-- A `Z0`, `Z1`, `z0` or `z1` packet. -/
structure BpPacket where
  insert : Bool
  hard : Bool
  addr : Str
  kind : Str
  value : ℤ
  addr_comma : ',' ∉ addr
  kind_comma : ',' ∉ kind
  parsed : e.int16 addr = some value

namespace BpPacket
variable {e}

def body (p : BpPacket e) : Str :=
  (if p.insert then 'Z' else 'z') ::
    ([if p.hard then '1' else '0'] ++ ',' :: (p.addr ++ ',' :: p.kind))

theorem fields (p : BpPacket e) :
    ([if p.hard then '1' else '0'] ++ ',' :: (p.addr ++ ',' :: p.kind)).splitOn ',' =
      [[if p.hard then '1' else '0'], p.addr, p.kind] := by
  have hsingle {l : Str} (h : ',' ∉ l) : ∀ x ∈ l, (x == ',') = false := by
    intro x hx
    exact beq_eq_false_iff_ne.mpr fun hc => h (hc ▸ hx)
  have htyp : ',' ∉ [if p.hard then '1' else '0'] := by
    cases p.hard <;> decide
  unfold List.splitOn
  rw [List.splitOnP_append_cons_of_forall_mem (hsingle htyp) _ (beq_self_eq_true _),
    List.splitOnP_append_cons_of_forall_mem (hsingle p.addr_comma) _ (beq_self_eq_true _),
    List.splitOnP_eq_singleton (hsingle p.kind_comma)]

theorem breakpoint_fields (p : BpPacket e) (b : Bool) :
    breakpoint e b ([if p.hard then '1' else '0'] ++ ',' :: (p.addr ++ ',' :: p.kind)) = (do
      if b then setBp e p.value else clrBp e p.value
      pure ok) := by
  have htyp : [if p.hard then '1' else '0'] = ['0'] ∨ [if p.hard then '1' else '0'] = ['1'] := by
    cases p.hard <;> decide
  unfold breakpoint
  rw [p.fields]
  simp only [three, require, pure_bind, if_pos htyp, p.parsed]

theorem handle_body (p : BpPacket e) :
    handle e p.body = (do
      if p.insert then setBp e p.value else clrBp e p.value
      pure ok) := by
  unfold body
  cases p.insert with
  | true => exact p.breakpoint_fields true
  | false => exact p.breakpoint_fields false

end BpPacket

section history
variable {e}

def live (ps : List (BpPacket e)) : Finset ℤ :=
  ps.foldl (fun l p => if p.insert then insert p.value l else l.erase p.value) ∅

def after (s : Server μ) (ps : List (BpPacket e)) : Server μ :=
  ps.foldl (fun s p => final (handle e p.body) s) s

structure Tracks (s : Server μ) (l : Finset ℤ) : Prop where
  keys : (s.slots.map Prod.fst).Nodup
  numbers : (s.slots.map Prod.snd).Nodup
  mem_live : ∀ a, a ∈ l ↔ ∃ i, (a, i) ∈ s.slots
  inRange : ∀ a i, (a, i) ∈ s.slots → i < nbp
  enLength : s.soc.dm.bpEn.length = nbp
  addrLength : s.soc.dm.bpAddr.length = nbp
  armed : ∀ i w, DebugModule.Armed s.soc.dm i w ↔ ∃ a, (a, i) ∈ s.slots ∧ BitVec.ofInt 32 a = w

variable {s : Server μ} {l : Finset ℤ}

theorem Tracks.card (h : Tracks s l) : l.card = s.slots.length := by
  have hl : l = (s.slots.map Prod.fst).toFinset := by
    ext a
    rw [h.mem_live, List.mem_toFinset, List.mem_map]
    constructor
    · rintro ⟨i, hi⟩
      exact ⟨(a, i), hi, rfl⟩
    · rintro ⟨⟨b, i⟩, hi, rfl⟩
      exact ⟨i, hi⟩
  rw [hl, List.toFinset_card_of_nodup h.keys, List.length_map]

theorem Tracks.enabled (h : Tracks s l) (w : Word) :
    w ∈ DebugModule.enabled s.soc.dm ↔ ∃ a ∈ l, BitVec.ofInt 32 a = w := by
  simp only [DebugModule.mem_enabled, h.armed, h.mem_live]
  constructor
  · rintro ⟨i, a, hi, hw⟩
    exact ⟨a, ⟨i, hi⟩, hw⟩
  · rintro ⟨a, ⟨i, hi⟩, hw⟩
    exact ⟨i, a, hi, hw⟩

theorem tracks_start (resetPc resvAddr : Word) (regs : Regs) (mem : μ) :
    Tracks (start resetPc resvAddr regs mem) ∅ where
  keys := List.nodup_nil
  numbers := List.nodup_nil
  mem_live a := by simp [start]
  inRange a i h := absurd h List.not_mem_nil
  enLength := rfl
  addrLength := rfl
  armed i w := by
    constructor
    · rintro ⟨hi, -⟩
      have hm := List.mem_of_getElem? hi
      exact absurd (List.eq_of_mem_replicate hm) (by decide)
    · rintro ⟨a, ha, -⟩
      exact absurd ha List.not_mem_nil

/-- The address is not set, and the next number is not in use. -/
def Fresh (s : Server μ) (a : ℤ) : Prop :=
  ∀ p ∈ s.slots, p.1 ≠ a ∧ p.2 ≠ s.slots.length

instance (s : Server μ) (a : ℤ) : Decidable (Fresh s a) :=
  inferInstanceAs (Decidable (∀ p ∈ s.slots, p.1 ≠ a ∧ p.2 ≠ s.slots.length))

theorem Tracks.set (h : Tracks s l) {a : ℤ} (hf : Fresh s a)
    (hn : s.slots.length < nbp) : Tracks (final (setBp e a) s) (insert a l) := by
  have hnum : ∀ b, (b, s.slots.length) ∉ s.slots := fun b hb => (hf _ hb).2 rfl
  have hany : s.slots.any (·.1 == a) = false := by
    rw [List.any_eq_false]
    intro p hp
    simpa using (hf p hp).1
  have hslots : setSlot s.slots a s.slots.length = s.slots ++ [(a, s.slots.length)] := by
    unfold setSlot
    rw [hany]
    rfl
  have hfin : final (setBp e a) s = selected e s.slots.length DebugModule.bpset a
      { s with slots := s.slots ++ [(a, s.slots.length)] } := by
    unfold final
    rw [setBp_eq, Nat.mod_eq_of_lt hn, hslots]
  obtain ⟨hen, haddr⟩ := selected_bpset e hn a { s with slots := s.slots ++ [(a, s.slots.length)] }
  have hnodup {β : Type} {f : ℤ × ℕ → β} {x : ℤ × ℕ} (hk : (s.slots.map f).Nodup)
      (hx : ∀ p ∈ s.slots, f p ≠ f x) : ((s.slots ++ [x]).map f).Nodup := by
    rw [List.map_append]
    refine List.nodup_append.mpr ⟨hk, List.nodup_singleton _, ?_⟩
    rintro b hb c hc rfl
    obtain ⟨p, hp, rfl⟩ := List.mem_map.mp hb
    exact hx p hp (List.mem_singleton.mp hc)
  rw [hfin]
  constructor
  · rw [selected_slots]
    exact hnodup h.keys fun p hp => (hf p hp).1
  · rw [selected_slots]
    exact hnodup h.numbers fun p hp => (hf p hp).2
  · intro b
    rw [selected_slots, Finset.mem_insert, h.mem_live]
    simp only [List.mem_append, List.mem_singleton, Prod.mk.injEq]
    constructor
    · rintro (rfl | ⟨i, hi⟩)
      · exact ⟨_, .inr ⟨rfl, rfl⟩⟩
      · exact ⟨i, .inl hi⟩
    · rintro ⟨i, hi | ⟨rfl, -⟩⟩
      · exact .inr ⟨i, hi⟩
      · exact .inl rfl
  · intro b i hi
    rw [selected_slots, List.mem_append, List.mem_singleton, Prod.mk.injEq] at hi
    rcases hi with hi | ⟨-, rfl⟩
    · exact h.inRange b i hi
    · exact hn
  · rw [hen, List.length_set]
    exact h.enLength
  · rw [haddr, List.length_set]
    exact h.addrLength
  · intro i w
    rw [DebugModule.armed_set hen haddr (h.enLength ▸ hn) (h.addrLength ▸ hn), selected_slots]
    simp only [List.mem_append, List.mem_singleton, Prod.mk.injEq]
    split_ifs with hi
    · subst hi
      constructor
      · rintro rfl
        exact ⟨a, .inr ⟨rfl, rfl⟩, rfl⟩
      · rintro ⟨b, hb | ⟨rfl, -⟩, rfl⟩
        · exact absurd hb (hnum b)
        · rfl
    · rw [h.armed]
      constructor
      · rintro ⟨b, hb, hw⟩
        exact ⟨b, .inl hb, hw⟩
      · rintro ⟨b, hb | ⟨-, hc⟩, hw⟩
        · exact ⟨b, hb, hw⟩
        · exact absurd hc hi

theorem Tracks.clear (h : Tracks s l) (a : ℤ) :
    Tracks (final (clrBp e a) s) (l.erase a) := by
  cases hl : s.slots.lookup a with
  | none =>
    have hk : ∀ i, (a, i) ∉ s.slots := by
      intro i hi
      simpa using List.lookup_eq_none_iff.mp hl _ hi
    have ha : a ∉ l := by
      rw [h.mem_live]
      rintro ⟨i, hi⟩
      exact hk i hi
    unfold final
    rw [clrBp_absent e hl, Finset.erase_eq_of_notMem ha]
    exact h
  | some idx =>
    have hmem : (a, idx) ∈ s.slots := by
      obtain ⟨l₁, l₂, hs, -⟩ := List.lookup_eq_some_iff.mp hl
      rw [hs]
      simp
    have hn := h.inRange a idx hmem
    -- The slots have one entry for the address and one for its number.
    have hother : ∀ b i, (b, i) ∈ s.slots → (b ≠ a ↔ i ≠ idx) := by
      intro b i hb
      constructor
      · rintro hne rfl
        exact hne (congrArg Prod.fst (List.inj_on_of_nodup_map h.numbers hb hmem rfl))
      · rintro hne rfl
        exact hne (congrArg Prod.snd (List.inj_on_of_nodup_map h.keys hb hmem rfl))
    have hfilter : ∀ b i, (b, i) ∈ s.slots.filter (·.1 != a) ↔ (b, i) ∈ s.slots ∧ b ≠ a := by
      simp
    obtain ⟨hen, haddr⟩ := selected_bpclr e hn 0 s
    unfold final
    rw [clrBp_present e hl]
    dsimp only
    rw [selected_slots]
    constructor
    · exact h.keys.sublist (List.filter_sublist.map _)
    · exact h.numbers.sublist (List.filter_sublist.map _)
    · intro b
      simp only [hfilter, Finset.mem_erase, h.mem_live, exists_and_right]
      exact and_comm
    · intro b i hb
      exact h.inRange b i ((hfilter b i).mp hb).1
    · dsimp only
      rw [hen, List.length_set]
      exact h.enLength
    · dsimp only
      rw [haddr]
      exact h.addrLength
    · intro i w
      dsimp only
      rw [DebugModule.armed_clear hen haddr (h.enLength ▸ hn), h.armed]
      simp only [hfilter]
      constructor
      · rintro ⟨hi, b, hb, hw⟩
        exact ⟨b, ⟨hb, (hother b i hb).mpr hi⟩, hw⟩
      · rintro ⟨b, ⟨hb, hne⟩, hw⟩
        exact ⟨(hother b i hb).mp hne, b, hb, hw⟩

theorem Tracks.handle (h : Tracks s l) (p : BpPacket e)
    (hf : p.insert = true → Fresh s p.value) (hn : p.insert = true → s.slots.length < nbp) :
    Tracks (final (Gdbstub.handle e p.body) s)
      (if p.insert then insert p.value l else l.erase p.value) := by
  have hfin {c : Stub μ PUnit} : final (do c; pure ok) s = final c s := by
    have hb : (do c; pure ok : Stub μ Str) s = EStateM.bind c (fun _ => pure ok) s := rfl
    unfold final
    rw [hb]
    unfold EStateM.bind
    cases c s <;> rfl
  rw [p.handle_body]
  cases hi : p.insert with
  | true =>
    rw [if_pos rfl, if_pos rfl, hfin]
    exact h.set (hf hi) (hn hi)
  | false =>
    rw [if_neg Bool.false_ne_true, if_neg Bool.false_ne_true, hfin]
    exact h.clear p.value

end history

/-- After every packet the breakpoints in force are those set and not cleared. -/
theorem breakpoints_live (e : Setup μ) (resetPc resvAddr : Word) (regs : Regs) (mem : μ)
    (ps : List (BpPacket e)) (hmost : ∀ n, (live (ps.take n)).card ≤ nbp)
    (hfresh : ∀ n p, ps[n]? = some p → p.insert = true →
      Fresh (after (start resetPc resvAddr regs mem) (ps.take n)) p.value) (n : ℕ) (w : Word) :
    w ∈ DebugModule.enabled (after (start resetPc resvAddr regs mem) (ps.take n)).soc.dm ↔
      ∃ a ∈ live (ps.take n), BitVec.ofInt 32 a = w := by
  refine Tracks.enabled ?_ w
  induction n with
  | zero => exact tracks_start resetPc resvAddr regs mem
  | succ n ih =>
    cases hp : ps[n]? with
    | none =>
      have hlen : ps.length ≤ n := List.getElem?_eq_none_iff.mp hp
      rw [List.take_of_length_le hlen] at ih
      rw [List.take_of_length_le (hlen.trans n.le_succ)]
      exact ih
    | some p =>
      have htake : ps.take (n + 1) = ps.take n ++ [p] := by
        rw [List.take_add_one, hp]
        rfl
      have hlive : live (ps.take (n + 1)) = if p.insert then insert p.value (live (ps.take n))
          else (live (ps.take n)).erase p.value := by
        rw [htake, live, List.foldl_append]
        rfl
      have hroom : p.insert = true →
          (after (start resetPc resvAddr regs mem) (ps.take n)).slots.length < nbp := by
        intro hi
        have hnot : p.value ∉ live (ps.take n) := by
          rw [ih.mem_live]
          rintro ⟨i, hm⟩
          exact (hfresh n p hp hi _ hm).1 rfl
        have hcard := hmost (n + 1)
        rw [hlive, if_pos hi, Finset.card_insert_of_notMem hnot, ih.card] at hcard
        exact hcard
      rw [hlive, htake, after, List.foldl_append]
      exact ih.handle p (hfresh n p hp) hroom

/-- `int(s, 16)` on plain hexadecimal digits. -/
def plainHex : Str → Option ℤ
  | [] => none
  | s => s.foldlM (fun v c =>
      if '0' ≤ c ∧ c ≤ '9' then some (16 * v + (c.toNat - 48 : ℕ))
      else if 'a' ≤ c ∧ c ≤ 'f' then some (16 * v + (c.toNat - 87 : ℕ))
      else none) 0

/-- `addi x0, x0, 0` everywhere, with one idle clock after each access. -/
def nops : Setup Unit where
  fetch _ := 0x00000013#32
  bus := ⟨fun _ _ _ => 0#32, fun _ _ _ _ => ()⟩
  timer _ := false
  idle _ := 1
  int16 := plainHex
  fromHex _ := none

/-- `Z0,a,4` or `z0,a,4`. -/
def softPacket (b : Bool) (addr : Str) (value : ℤ) (h : ',' ∉ addr)
    (hv : plainHex addr = some value) : BpPacket nops :=
  ⟨b, false, addr, ['4'], value, h, by decide, hv⟩

def set100 : BpPacket nops := softPacket true ['1', '0', '0'] 0x100 (by decide) (by decide)
def clr100 : BpPacket nops := softPacket false ['1', '0', '0'] 0x100 (by decide) (by decide)
def set200 : BpPacket nops := softPacket true ['2', '0', '0'] 0x200 (by decide) (by decide)
def clr200 : BpPacket nops := softPacket false ['2', '0', '0'] 0x200 (by decide) (by decide)
def set300 : BpPacket nops := softPacket true ['3', '0', '0'] 0x300 (by decide) (by decide)

def fresh : Server Unit := start 0#32 0#32 (fun _ => 0#32) ()

def nested : List (BpPacket nops) := [set100, set200, clr200, set300]

theorem nested_live : 0x100#32 ∈ DebugModule.enabled (after fresh (nested.take 4)).soc.dm := by
  refine (breakpoints_live nops 0#32 0#32 _ () nested ?_ ?_ 4 _).mpr ⟨0x100, by decide +kernel, rfl⟩
  · intro n
    rcases Nat.lt_or_ge n 4 with hn | hn
    · revert n
      decide +kernel
    · rw [List.take_of_length_le hn]
      decide +kernel
  · intro n p hp hi
    have hn : n < 4 := (List.getElem?_eq_some_iff.mp hp).1
    interval_cases n <;> cases hp <;> first | exact absurd hi (by decide) | decide +kernel

/-- The oldest is cleared first: the next one is given the number of the other. -/
def crossed : List (BpPacket nops) := [set100, set200, clr100, set300]

theorem crossed_lost : (∀ n < 5, (live (crossed.take n)).card ≤ nbp) ∧ 0x200 ∈ live crossed ∧
      BitVec.ofInt 32 0x200 ∉ DebugModule.enabled (after fresh crossed).soc.dm := by
  decide +kernel

end Gdbstub
end RiscvScratch
