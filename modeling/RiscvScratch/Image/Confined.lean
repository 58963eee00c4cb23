import RiscvScratch.Image.Transfer

/-!
The loader stays inside its own variables and the payload area, whatever arrives.
-/
namespace RiscvScratch.Rvbi

open ByteMem Platform Program

namespace Config

variable (c : Config)

/-- A byte of `hdr`, `seg` or `cmdline`. -/
def Own (x : BitVec 32) : Prop :=
  Within c.hdr hdrBytes x ∨ Within c.seg (segBytes * rvbiMaxSegs) x ∨
    Within c.cmdline (rvbiMaxCmd + 1) x

def Payload (x : BitVec 32) : Prop :=
  payloadBase.toNat ≤ x.toNat ∧ x.toNat < c.payloadEnd.toNat

/-- `e` lies in the file part of segment `i`. -/
def InFile (m : Mem) (i : ℕ) (e : BitVec 32) : Prop :=
  (c.segAddr m i).toNat ≤ e.toNat ∧ e.toNat < (c.segAddr m i).toNat + (c.filesz m i).toNat

/-- The file bytes of the first `i` segments. -/
def fileBytes (m : Mem) (i : ℕ) : ℕ := ∑ j ∈ Finset.range i, (c.filesz m j).toNat

end Config

section Confined

variable {c : Config}

variable {m : Mem} {i : ℕ} {m' : Mem} {s : Machine} {x : BitVec 32} {n : ℕ} {s' s₀ : Machine}

theorem Config.Own.not_payload (h : c.Own x) : ¬c.Payload x := by
  have hlt : x.toNat < payloadBase.toNat := by
    rcases h with h | h | h
    · exact (c.hdr_firmware.lt_payload h).2
    · exact (c.seg_firmware.lt_payload h).2
    · exact (c.cmdline_firmware.lt_payload h).2
  exact fun hp => absurd hp.1 (Nat.not_le.mpr hlt)

theorem load16_congr {a : BitVec 32} (o : ℕ) (ho : o + 2 ≤ n)
    (hn : n ≤ 2 ^ 32) (h : ∀ x, Within a n x → m' x = m x) :
    load16 m' (a + BitVec.ofNat 32 o) = load16 m (a + BitVec.ofNat 32 o) := by
  have h₀ : Within (a + BitVec.ofNat 32 o) 2 (a + BitVec.ofNat 32 o) := within_zero two_pos
  have h₁ : Within (a + BitVec.ofNat 32 o) 2 (a + BitVec.ofNat 32 o + 1#32) := by
    unfold Within; bv_omega
  rw [load16, load16, h _ (h₀.offset ho hn), h _ (h₁.offset ho hn)]

theorem load32_same {a : BitVec 32} (o : ℕ) (ho : o + 4 ≤ n)
    (hn : n ≤ 2 ^ 32) (h : ∀ x, Within a n x → m' x = m x) :
    load32 m' (a + BitVec.ofNat 32 o) = load32 m (a + BitVec.ofNat 32 o) := by
  apply load32_congr
  intro k hk
  have hx : Within (a + BitVec.ofNat 32 o) 4 (a + BitVec.ofNat 32 o + BitVec.ofNat 32 k) := by
    unfold Within; bv_omega
  exact h _ (hx.offset ho hn)

structure SameHdr (c : Config) (m m' : Mem) : Prop where
  magic : c.magic m' = c.magic m
  version : c.version m' = c.version m
  nseg : c.nseg m' = c.nseg m
  entry : c.entry m' = c.entry m
  flags : c.flags m' = c.flags m
  cmdlineLen : c.cmdlineLen m' = c.cmdlineLen m
  dataSize : c.dataSize m' = c.dataSize m
  dataCrc : c.dataCrc m' = c.dataCrc m
  hdrCrc : c.hdrCrc m' = c.hdrCrc m

theorem SameHdr.of_bytes (h : ∀ x, Within c.hdr hdrBytes x → m' x = m x) :
    SameHdr c m m' where
  magic := by simpa [Config.magic] using load32_same 0 (by decide) (by decide) h
  version := load16_congr 4 (by decide) (by decide) h
  nseg := load16_congr 6 (by decide) (by decide) h
  entry := load32_same 8 (by decide) (by decide) h
  flags := load32_same 12 (by decide) (by decide) h
  cmdlineLen := load16_congr 16 (by decide) (by decide) h
  dataSize := load32_same 20 (by decide) (by decide) h
  dataCrc := load32_same 24 (by decide) (by decide) h
  hdrCrc := load32_same 28 (by decide) (by decide) h

theorem SameHdr.badHeader (h : SameHdr c m m') :
    badHeader c m' ↔ badHeader c m := by
  unfold Rvbi.badHeader
  rw [h.magic, h.version, h.nseg, h.cmdlineLen]

structure SameSeg (c : Config) (m m' : Mem) (i : ℕ) : Prop where
  segAddr : c.segAddr m' i = c.segAddr m i
  filesz : c.filesz m' i = c.filesz m i
  memsz : c.memsz m' i = c.memsz m i

theorem SameSeg.of_bytes (hi : i < rvbiMaxSegs)
    (h : ∀ x, Within c.seg (segBytes * rvbiMaxSegs) x → m' x = m x) : SameSeg c m m' i := by
  have hrow : ∀ x, Within (c.segAt i) segBytes x → m' x = m x := by
    intro x hx
    refine h x (hx.offset ?_ (by decide))
    unfold segBytes rvbiMaxSegs at *
    omega
  constructor
  · simpa [Config.segAddr] using load32_same 0 (by decide) (by decide) hrow
  · exact load32_same 4 (by decide) (by decide) hrow
  · exact load32_same 8 (by decide) (by decide) hrow

theorem magicWord_wp (s : Machine) :
    Wp (magicWord c) (fun _ s' => s'.mem = s.mem ∧ s'.wrote = s.wrote)
      (fun _ s' => s'.mem = s.mem ∧ s'.wrote = s.wrote) s := by
  unfold magicWord
  rw [wp_bind, wp_get]
  refine Wp.ite (fun _ => Wp.ite (fun _ => ⟨rfl, rfl⟩) fun _ => ⟨rfl, rfl⟩) fun _ => ?_
  cases hunt 0#32 s.lineErr s.line with
  | none => exact ⟨rfl, rfl⟩
  | some r => exact ⟨rfl, rfl⟩

theorem storeWord_writes (a v : BitVec 32) (s : Machine) :
    Wp (storeWord c a v) (fun _ s' => Writes (Within a 4) s s')
      (fun _ s' => Writes (Within a 4) s s') s := by
  have hin : ∀ o < 4, ∀ x, Within (a + BitVec.ofNat 32 o) 1 x → Within a 4 x :=
    fun o ho x hx => hx.offset (by omega) (by decide)
  have h0 : ∀ x, Within a 1 x → Within a 4 x := fun x hx => hx.mono (by decide)
  unfold storeWord
  refine (store_writes c a _ s).bind ?_ fun _ _ h => h.mono h0
  rintro _ s₁ ⟨h₁, -⟩
  refine (store_writes c _ _ s₁).bind ?_ fun _ _ h =>
    (h₁.mono h0).trans (h.mono (hin 1 (by decide)))
  rintro _ s₂ ⟨h₂, -⟩
  have h₂ := (h₁.mono h0).trans (h₂.mono (hin 1 (by decide)))
  refine (store_writes c _ _ s₂).bind ?_ fun _ _ h => h₂.trans (h.mono (hin 2 (by decide)))
  rintro _ s₃ ⟨h₃, -⟩
  have h₃ := h₂.trans (h₃.mono (hin 2 (by decide)))
  refine (store_writes c _ _ s₃).imp ?_ fun _ _ h => h₃.trans (h.mono (hin 3 (by decide)))
  exact fun _ _ h => h₃.trans (h.1.mono (hin 3 (by decide)))

theorem receiveFixed_confined (s : Machine) :
    Wp (receiveFixed c) (fun _ s' => Writes c.Own s s') (fun _ s' => Writes c.Own s s') s := by
  have hin : ∀ o n, o + n ≤ hdrBytes → ∀ x, Within (c.hdr + BitVec.ofNat 32 o) n x → c.Own x :=
    fun o n ho x hx => Or.inl (hx.offset ho (by decide))
  unfold receiveFixed
  rw [wp_bind, wp_modify]
  have hread : ∀ {s' : Machine}, s'.mem = s.mem ∧ s'.wrote = s.wrote → Writes c.Own s s' :=
    fun h => Writes.of_eq h.2 h.1
  refine (magicWord_wp _).bind ?_ fun _ _ h => hread h
  intro w s₁ h
  have h₁ := hread h
  refine (storeWord_writes c.hdr w s₁).bind ?_ fun _ _ h => h₁.trans (h.mono fun x hx => ?_)
  · intro _ s₂ h
    have h₂ := h₁.trans (h.mono fun x hx => Or.inl (hx.mono (by decide)))
    rw [wp_bind, wp_get]
    refine (getBytes_took c (by decide) (c.hdr + 4#32) _ s₂).bind ?_ fun _ _ h =>
      h₂.trans (h.mono (hin 4 24 (by decide)))
    rintro crc s₃ ⟨data, hlen, -, h⟩
    have h₃ := h₂.trans (h.writes.mono (hin 4 _ (by rw [hlen]; decide)))
    refine (getBytes_took c (by decide) (c.hdr + 28#32) _ s₃).bind ?_ fun _ _ h =>
      h₃.trans (h.mono (hin 28 4 (by decide)))
    rintro _ s₄ ⟨data', hlen', -, h⟩
    exact wp_pure.mpr (h₃.trans (h.writes.mono (hin 28 _ (by rw [hlen']; decide))))
  · exact Or.inl (hx.mono (by decide))

def Config.Tables (c : Config) (x : BitVec 32) : Prop :=
  Within c.seg (segBytes * rvbiMaxSegs) x ∨ Within c.cmdline (rvbiMaxCmd + 1) x

theorem Config.Tables.not_hdr (h : c.Tables x) : ¬Within c.hdr hdrBytes x := by
  rcases h with h | h
  · exact c.hdr_seg.not_within c.hdr_firmware c.seg_firmware h
  · exact c.hdr_cmdline.not_within c.hdr_firmware c.cmdline_firmware h

theorem SameHdr.of_tables (h : Writes c.Tables s s') : SameHdr c s.mem s'.mem :=
  SameHdr.of_bytes fun x hx => h.frame x fun ht => ht.not_hdr hx

theorem receiveTables_confined (h : ¬badHeader c s.mem) (crc : BitVec 32) :
    Wp (receiveTables c crc) (fun r s' => Writes c.Tables s s' ∧ r ≠ some .ok)
      (fun _ s' => Writes c.Tables s s') s := by
  have hsegs : (c.nseg s.mem).toNat ≤ rvbiMaxSegs := by unfold badHeader at h; omega
  have hcmd : (c.cmdlineLen s.mem).toNat ≤ rvbiMaxCmd := by unfold badHeader at h; omega
  have hseg : ∀ x, Within c.seg ((c.nseg s.mem).toNat * segBytes) x → c.Tables x :=
    fun x hx => Or.inl (hx.mono (by unfold segBytes; omega))
  have hline : ∀ x, Within c.cmdline (c.cmdlineLen s.mem).toNat x → c.Tables x :=
    fun x hx => Or.inr (hx.mono (by omega))
  unfold receiveTables
  rw [wp_bind, wp_get]
  refine (getBytes_took c (by unfold rvbiMaxSegs segBytes at *; omega) c.seg crc s).bind ?_
    fun _ _ h => h.mono hseg
  rintro crc₁ s₁ ⟨data, hlen, -, h₁⟩
  have h₁ := h₁.writes.mono (hlen ▸ hseg)
  rw [wp_bind, wp_get]
  dsimp only
  rw [(SameHdr.of_tables h₁).cmdlineLen]
  refine (getBytes_took c (by unfold rvbiMaxCmd at *; omega) c.cmdline crc₁ s₁).bind ?_
    fun _ _ h => h₁.trans (h.mono hline)
  rintro crc₂ s₂ ⟨data', hlen', -, h₂⟩
  have h₂ := h₁.trans (h₂.writes.mono (hlen' ▸ hline))
  rw [wp_bind, wp_get, (SameHdr.of_tables h₂).cmdlineLen]
  have hnul : ∀ x, Within (c.cmdline + (c.cmdlineLen s.mem).setWidth 32) 1 x → c.Tables x := by
    intro x hx
    rw [← BitVec.ofNat_toNat] at hx
    exact Or.inr (hx.offset (by omega) (by decide))
  refine (store_writes c _ _ s₂).bind ?_ fun _ _ h => h₂.trans (h.mono hnul)
  rintro _ s₃ ⟨h₃, -⟩
  have h₃ := h₂.trans (h₃.mono hnul)
  rw [wp_bind, wp_modify, wp_bind, wp_get]
  have h₄ : Writes c.Tables s { s₃ with crcGot := ~~~crc₂ } := h₃.trans (Writes.of_eq rfl rfl)
  exact Wp.ite (fun _ => wp_pure.mpr ⟨h₄, nofun⟩) fun _ => wp_pure.mpr ⟨h₄, nofun⟩

/-- Before the data only the loader's own variables are written, and a header that is not refused
has passed its checks. -/
theorem receiveHeader_confined (s : Machine) :
    Wp (receiveHeader c)
      (fun r s' => Writes c.Own s s' ∧ (r = none → ¬badHeader c s'.mem) ∧ r ≠ some .ok)
      (fun _ s' => Writes c.Own s s') s := by
  unfold receiveHeader
  refine (receiveFixed_confined s).bind ?_ fun _ _ h => h
  intro crc s₁ h₁
  rw [wp_bind, wp_get]
  refine Wp.ite (fun _ => wp_pure.mpr ⟨h₁, nofun, nofun⟩) fun hgood => ?_
  have hown : ∀ {s₂ : Machine}, Writes c.Tables s₁ s₂ → Writes c.Own s s₂ :=
    fun h => h₁.trans (h.mono fun x hx => Or.inr hx)
  refine (receiveTables_confined hgood crc).imp ?_ fun _ _ h => hown h
  rintro r s₂ ⟨h₂, hr⟩
  exact ⟨hown h₂, fun _ => (SameHdr.of_tables h₂).badHeader.not.mpr hgood, hr⟩

/-- The comparisons on wrapping words bound the segment as a range of numbers. -/
theorem not_badSegment_iff : ¬badSegment c m i ↔
    (c.filesz m i).toNat ≤ (c.memsz m i).toNat ∧
      payloadBase.toNat ≤ (c.segAddr m i).toNat ∧
      (c.segAddr m i).toNat + (c.memsz m i).toNat ≤ c.payloadEnd.toNat := by
  have haddr := (c.segAddr m i).isLt
  have hmem := (c.memsz m i).isLt
  have hmax := c.payloadEnd.isLt
  simp only [badSegment, gt_iff_lt, not_or, BitVec.not_lt, BitVec.le_def, BitVec.toNat_add]
  constructor
  · rintro ⟨hfile, hwrap, hlow, hend⟩
    exact ⟨hfile, hlow, by omega⟩
  · rintro ⟨hfile, hlow, hend⟩
    exact ⟨hfile, by omega, hlow, by omega⟩

theorem entryIn_iff (h : ¬badSegment c m i) : entryIn c m i ↔ c.InFile m i (c.entry m) := by
  obtain ⟨hfile, -, hend⟩ := not_badSegment_iff.mp h
  have hmax := c.payloadEnd.isLt
  rw [entryIn, Config.InFile, ge_iff_le, BitVec.le_def, BitVec.lt_def, BitVec.toNat_add,
    Nat.mod_eq_of_lt (by omega)]

theorem Config.fileBytes_succ (c : Config) (m : Mem) (i : ℕ) :
    c.fileBytes m (i + 1) = c.fileBytes m i + (c.filesz m i).toNat := Finset.sum_range_succ _ _

/-- The loop over the table: the first bad row, or the file bytes and whether some row holds the
entry point. -/
theorem checkSegs_spec (m : Mem) (i : ℕ) (total : BitVec 32) (eok : Bool)
    (hi : i ≤ (c.nseg m).toNat) (htotal : total = BitVec.ofNat 32 (c.fileBytes m i)) :
    match checkSegs c m i total eok with
    | .error j => j < (c.nseg m).toNat ∧ badSegment c m j
    | .ok (t, e) => (∀ j, i ≤ j → j < (c.nseg m).toNat → ¬badSegment c m j) ∧
        t = BitVec.ofNat 32 (c.fileBytes m (c.nseg m).toNat) ∧
        (e = true ↔ eok = true ∨ ∃ j, i ≤ j ∧ j < (c.nseg m).toNat ∧ entryIn c m j) := by
  fun_induction checkSegs c m i total eok with
  | case1 i total eok hlt hbad => exact ⟨hlt, hbad⟩
  | case2 i total eok hlt hgood ih =>
    have hnext : total + c.filesz m i = BitVec.ofNat 32 (c.fileBytes m (i + 1)) := by
      rw [htotal, c.fileBytes_succ, BitVec.ofNat_add, BitVec.ofNat_toNat, BitVec.setWidth_eq]
    have ih := ih hlt hnext
    cases hr : checkSegs c m (i + 1) (total + c.filesz m i) (eok || decide (entryIn c m i)) with
    | error j => rw [hr] at ih; exact ih
    | ok r =>
      rw [hr] at ih
      obtain ⟨hrest, ht, he⟩ := ih
      refine ⟨?_, ht, ?_⟩
      · intro j hij hj
        rcases Nat.eq_or_lt_of_le hij with rfl | hlt
        · exact hgood
        · exact hrest j hlt hj
      · rw [he, Bool.or_eq_true, decide_eq_true_eq]
        constructor
        · rintro ((h | h) | ⟨j, hij, hj, hin⟩)
          · exact Or.inl h
          · exact Or.inr ⟨i, le_rfl, hlt, h⟩
          · exact Or.inr ⟨j, by omega, hj, hin⟩
        · rintro (h | ⟨j, hij, hj, hin⟩)
          · exact Or.inl (Or.inl h)
          · rcases Nat.eq_or_lt_of_le hij with rfl | hlt
            · exact Or.inl (Or.inr hin)
            · exact Or.inr ⟨j, hlt, hj, hin⟩
  | case3 i total eok hge =>
    have hend : i = (c.nseg m).toNat := by omega
    refine ⟨fun j hij hj => absurd hj (by omega), hend ▸ htotal, ?_⟩
    exact ⟨Or.inl, fun h => h.resolve_right fun ⟨j, hij, hj, _⟩ => absurd hj (by omega)⟩

theorem checkSegs_all (c : Config) (m : Mem) :
    match checkSegs c m 0 0#32 false with
    | .error j => j < (c.nseg m).toNat ∧ badSegment c m j
    | .ok (t, e) => (∀ j < (c.nseg m).toNat, ¬badSegment c m j) ∧
        t = BitVec.ofNat 32 (c.fileBytes m (c.nseg m).toNat) ∧
        (e = true ↔ ∃ j < (c.nseg m).toNat, entryIn c m j) := by
  have h := checkSegs_spec m 0 0#32 false (Nat.zero_le (c.nseg m).toNat) rfl
  cases hr : checkSegs c m 0 0#32 false with
  | error j => rw [hr] at h; exact h
  | ok r =>
    rw [hr] at h
    obtain ⟨hgood, ht, he⟩ := h
    refine ⟨fun j hj => hgood j (Nat.zero_le j) hj, ht, he.trans ?_⟩
    constructor
    · rintro (h | ⟨j, -, hj, hin⟩)
      · cases h
      · exact ⟨j, hj, hin⟩
    · exact fun ⟨j, hj, hin⟩ => Or.inr ⟨j, Nat.zero_le j, hj, hin⟩

theorem SameHdr.of_payload (h : Writes c.Payload s s') :
    SameHdr c s.mem s'.mem :=
  SameHdr.of_bytes fun x hx => h.frame x (Config.Own.not_payload (Or.inl hx))

theorem SameSeg.of_payload (h : Writes c.Payload s s') (hi : i < rvbiMaxSegs) :
    SameSeg c s.mem s'.mem i :=
  SameSeg.of_bytes hi fun x hx => h.frame x (Config.Own.not_payload (Or.inr (Or.inl hx)))

theorem payload_of_within (h : ¬badSegment c m i) {o : ℕ}
    (ho : o + n ≤ (c.memsz m i).toNat) (hx : Within (c.segAddr m i + BitVec.ofNat 32 o) n x) :
    c.Payload x := by
  obtain ⟨-, hlow, hend⟩ := not_badSegment_iff.mp h
  have := c.payloadEnd.isLt
  have hx := hx.offset ho (c.memsz m i).isLt.le
  have := (within_iff (by omega)).mp hx
  exact ⟨by omega, by omega⟩

theorem payload_of_within_start (h : ¬badSegment c m i) (hn : n ≤ (c.memsz m i).toNat)
    (hx : Within (c.segAddr m i) n x) :
    c.Payload x :=
  payload_of_within (o := 0) h (by omega) (show Within (c.segAddr m i + 0#32) n x by simpa using hx)

/-- The data of the first `i` segments of `s₀` has been taken and folded into `crc`. -/
structure Loaded (c : Config) (s₀ : Machine) (i : ℕ) (crc : BitVec 32) (s : Machine) : Prop where
  writes : Writes c.Payload s₀ s
  data : ∃ data, s.got = s₀.got ++ data ∧ data.length = c.fileBytes s₀.mem i ∧
    crc = data.foldl crc32Byte 0xFFFFFFFF#32

theorem loadSeg_loaded {crc : BitVec 32} (hi : i < rvbiMaxSegs)
    (hgood : ¬badSegment c s₀.mem i) (h : Loaded c s₀ i crc s) :
    Wp (loadSeg c i crc) (fun crc' s' => Loaded c s₀ (i + 1) crc' s')
      (fun _ s' => Writes c.Payload s₀ s') s := by
  obtain ⟨hfile, -, -⟩ := not_badSegment_iff.mp hgood
  have hseg := SameSeg.of_payload h.writes hi
  unfold loadSeg
  rw [wp_bind, wp_get]
  dsimp only
  rw [hseg.segAddr, hseg.filesz]
  have hdata : ∀ x, Within (c.segAddr s₀.mem i) (c.filesz s₀.mem i).toNat x → c.Payload x :=
    fun x hx => payload_of_within_start hgood hfile hx
  refine (getBytes_took c (c.filesz s₀.mem i).isLt.le _ crc s).bind ?_
    fun _ _ h' => h.writes.trans (h'.mono hdata)
  rintro crc₁ s₁ ⟨data, hlen, hcrc, h₁⟩
  have hw₁ := h.writes.trans (h₁.writes.mono (hlen ▸ hdata))
  have hseg₁ := SameSeg.of_payload hw₁ hi
  rw [wp_bind, wp_get, hseg₁.filesz, hseg₁.memsz, BitVec.toNat_sub_of_le hfile]
  have hzero : ∀ x, Within (c.segAddr s₀.mem i + c.filesz s₀.mem i)
      ((c.memsz s₀.mem i).toNat - (c.filesz s₀.mem i).toNat) x → c.Payload x := by
    intro x hx
    have hx' : Within (c.segAddr s₀.mem i + BitVec.ofNat 32 (c.filesz s₀.mem i).toNat)
        ((c.memsz s₀.mem i).toNat - (c.filesz s₀.mem i).toNat) x := by
      rwa [BitVec.ofNat_toNat, BitVec.setWidth_eq]
    exact payload_of_within hgood (by omega) hx'
  have hmax := (c.memsz s₀.mem i).isLt
  refine (memset_writes c 0#8 (by omega) _ s₁).bind ?_ fun _ _ h' => hw₁.trans (h'.mono hzero)
  rintro _ s₂ ⟨hw₂, hgot₂⟩
  obtain ⟨taken, hgot, hcount, hsofar⟩ := h.data
  refine wp_pure.mpr ⟨hw₁.trans (hw₂.mono hzero), taken ++ data, ?_, ?_, ?_⟩
  · rw [hgot₂, h₁.got, hgot, List.append_assoc]
  · rw [List.length_append, hcount, hlen, c.fileBytes_succ]
  · rw [hcrc, hsofar, List.foldl_append]

section
variable (hn : (c.nseg s₀.mem).toNat ≤ rvbiMaxSegs)
  (hgood : ∀ i < (c.nseg s₀.mem).toNat, ¬badSegment c s₀.mem i)
include hn hgood

theorem loadSegs_loaded (k : ℕ) :
    ∀ i, i + k = (c.nseg s₀.mem).toNat → ∀ crc s, Loaded c s₀ i crc s →
      Wp (loadSegs c i crc) (fun crc' s' => Loaded c s₀ (c.nseg s₀.mem).toNat crc' s')
        (fun _ s' => Writes c.Payload s₀ s') s := by
  induction k with
  | zero =>
    intro i hi crc s h
    rw [loadSegs, wp_bind, wp_get]
    dsimp only
    rw [(SameHdr.of_payload h.writes).nseg, dif_neg (by omega)]
    exact wp_pure.mpr ((show i = _ from hi) ▸ h)
  | succ k ih =>
    intro i hi crc s h
    have hlt : i < (c.nseg s₀.mem).toNat := by omega
    rw [loadSegs, wp_bind, wp_get]
    dsimp only
    rw [(SameHdr.of_payload h.writes).nseg, dif_pos hlt]
    refine (loadSeg_loaded (by omega) (hgood i hlt) h).bind ?_ fun _ _ h => h
    exact fun crc₁ s₁ h₁ => ih (i + 1) (by omega) crc₁ s₁ h₁

theorem receiveData_confined (total : BitVec 32) :
    Wp (receiveData c total)
      (fun code s' => Writes c.Payload s₀ s' ∧
        code ∉ [.badHdr, .hdrCrc, .range, .sizes, ImgCode.entry] ∧
        (code = .ok → ∃ data, s'.got = s₀.got ++ data ∧
          data.length = c.fileBytes s₀.mem (c.nseg s₀.mem).toNat ∧
          crc32 0#32 data = c.dataCrc s₀.mem))
      (fun _ s' => Writes c.Payload s₀ s') s₀ := by
  have hstart : Loaded c s₀ 0 0xFFFFFFFF#32 s₀ :=
    ⟨Writes.of_eq rfl rfl, [], by simp, rfl, rfl⟩
  unfold receiveData
  refine (loadSegs_loaded hn hgood _ 0 (Nat.zero_add _) _ _ hstart).bind ?_ fun _ _ h => h
  intro crc s₁ h₁
  rw [wp_bind, wp_modify, wp_bind, wp_get]
  have hw : Writes c.Payload s₀
      { s₁ with crcGot := ~~~crc, rxTotal := total, rxErr := s₁.lineErr } :=
    h₁.writes.trans (Writes.of_eq rfl rfl)
  refine Wp.ite (fun _ => ⟨hw, by decide, nofun⟩) fun _ => ?_
  refine Wp.ite (fun _ => ⟨hw, by decide, nofun⟩) fun hcrc => ⟨hw, by decide, fun _ => ?_⟩
  obtain ⟨data, hgot, hlen, hfold⟩ := h₁.data
  refine ⟨data, hgot, hlen, ?_⟩
  rw [← (SameHdr.of_payload hw).dataCrc, ← not_ne_iff.mp hcrc, crc32, hfold]
  rfl

end

/-- `load_image` stores only to its own variables and the payload area; a refusal before the data
leaves the payload area alone; an accepted image has its entry in a segment and a good data CRC. -/
theorem load_image_confined (c : Config) (s : Machine) :
    Wp (loadImage c)
      (fun code s' =>
        Writes (fun x => c.Own x ∨ c.Payload x) s s' ∧
        (code ∈ [.badHdr, .hdrCrc, .range, .sizes, ImgCode.entry] →
          Writes (fun x => c.Own x ∧ ¬c.Payload x) s s') ∧
        (code = .ok →
          (∃ i < (c.nseg s'.mem).toNat, c.InFile s'.mem i (c.entry s'.mem)) ∧
          ∃ before data, s'.got = before ++ data ∧
            data.length = c.fileBytes s'.mem (c.nseg s'.mem).toNat ∧
            crc32 0#32 data = c.dataCrc s'.mem))
      (fun _ s' => Writes (fun x => c.Own x ∨ c.Payload x) s s') s := by
  have hown : ∀ {s' : Machine}, Writes c.Own s s' →
      Writes (fun x => c.Own x ∨ c.Payload x) s s' ∧
      Writes (fun x => c.Own x ∧ ¬c.Payload x) s s' :=
    fun h => ⟨h.mono fun _ => Or.inl, h.mono fun _ hx => ⟨hx, hx.not_payload⟩⟩
  unfold loadImage
  refine (receiveHeader_confined s).bind ?_ fun _ _ h => (hown h).1
  rintro r s₁ ⟨h₁, hnone, hnot⟩
  obtain ⟨hboth, honly⟩ := hown h₁
  cases r with
  | some code => exact wp_pure.mpr ⟨hboth, fun _ => honly, fun h => absurd (h ▸ rfl) hnot⟩
  | none =>
    have hn : (c.nseg s₁.mem).toNat ≤ rvbiMaxSegs := by
      have := hnone rfl
      unfold badHeader at this
      omega
    dsimp only
    unfold loadChecked
    rw [wp_bind, wp_get]
    dsimp only
    have hspec := checkSegs_all c s₁.mem
    cases hcheck : checkSegs c s₁.mem 0 0#32 false with
    | error i =>
      exact ⟨hboth.trans (Writes.of_eq rfl rfl), fun _ => honly.trans (Writes.of_eq rfl rfl), nofun⟩
    | ok r =>
      obtain ⟨total, entryOk⟩ := r
      rw [hcheck] at hspec
      obtain ⟨hgood, -, hentry⟩ := hspec
      refine Wp.ite (fun _ => ⟨hboth, fun _ => honly, nofun⟩) fun _ => ?_
      refine Wp.ite (fun _ => ⟨hboth, fun _ => honly, nofun⟩) fun hok => ?_
      refine (receiveData_confined hn hgood total).imp ?_ ?_
      · rintro code s₂ ⟨hw, hcode, hdata⟩
        refine ⟨hboth.trans (hw.mono fun _ => Or.inr), fun h => absurd h hcode, fun h => ?_⟩
        have hsame := SameHdr.of_payload hw
        have hseg : ∀ i < (c.nseg s₁.mem).toNat, SameSeg c s₁.mem s₂.mem i :=
          fun i hi => SameSeg.of_payload hw (by omega)
        rw [hsame.nseg, hsame.entry, hsame.dataCrc]
        obtain ⟨j, hj, hin⟩ := hentry.mp (by simpa using hok)
        obtain ⟨data, hgot, hlen, hcrc⟩ := hdata h
        refine ⟨⟨j, hj, ?_⟩, s₁.got, data, hgot, ?_, hcrc⟩
        · rw [Config.InFile, (hseg j hj).segAddr, (hseg j hj).filesz]
          exact (entryIn_iff (hgood j hj)).mp hin
        · rw [hlen, Config.fileBytes, Config.fileBytes]
          exact Finset.sum_congr rfl fun i hi => by rw [(hseg i (Finset.mem_range.mp hi)).filesz]
      · exact fun _ s₂ hw => hboth.trans (hw.mono fun _ => Or.inr)

end Confined

end RiscvScratch.Rvbi
