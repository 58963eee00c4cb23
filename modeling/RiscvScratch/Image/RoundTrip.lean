import RiscvScratch.Image.BootMem
import RiscvScratch.Image.Hunt
import RiscvScratch.Image.MakeImage

/-!
The boot image round trip: what `make_image` makes of segments that fit the payload area,
`load_image` puts in place.
-/
namespace RiscvScratch.Rvbi

open ByteMem Platform Program

/-- `x` is a byte of the segment in memory. -/
def Segment.Covers (g : Segment) (x : BitVec 32) : Prop := Within g.addr g.memsz.toNat x

def Segment.contents (g : Segment) : List (BitVec 8) :=
  g.data ++ List.replicate (g.memsz.toNat - g.data.length) 0#8

/-- Segments the loader has room for, with the entry point in the file part of one of them. -/
structure Loadable (c : Config) (entry : BitVec 32) (segs : List Segment) : Prop where
  pos : 1 ≤ segs.length
  count : segs.length ≤ rvbiMaxSegs
  disjoint : segs.Pairwise fun g g' => ∀ x, ¬(g.Covers x ∧ g'.Covers x)
  file : ∀ g ∈ segs, g.data.length ≤ g.memsz.toNat
  low : ∀ g ∈ segs, payloadBase.toNat ≤ g.addr.toNat
  high : ∀ g ∈ segs, g.addr.toNat + g.memsz.toNat ≤ c.payloadEnd.toNat
  entry_in : ∃ g ∈ segs, g.addr.toNat ≤ entry.toNat ∧ entry.toNat < g.addr.toNat + g.data.length

theorem sum_length_le {ι : Type*} (a n : ι → ℕ) {l : List ι} {lo hi : ℕ}
    (hin : ∀ i ∈ l, lo ≤ a i ∧ a i + n i ≤ hi)
    (hdis : l.Pairwise fun i j => ∀ x, ¬((a i ≤ x ∧ x < a i + n i) ∧ a j ≤ x ∧ x < a j + n j)) :
    (l.map n).sum ≤ hi - lo := by
  have hnodup : (l.flatMap fun i => List.range' (a i) (n i)).Nodup := by
    refine List.nodup_flatMap.mpr ⟨fun i _ => List.nodup_range', hdis.imp fun {i j} h x hi hj => ?_⟩
    rw [List.mem_range'_1] at hi hj
    exact h x ⟨hi, hj⟩
  have hsub : (l.flatMap fun i => List.range' (a i) (n i)).toFinset ⊆ Finset.Ico lo hi := by
    intro x hx
    obtain ⟨i, hi, hx⟩ := List.mem_flatMap.mp (List.mem_toFinset.mp hx)
    rw [List.mem_range'_1] at hx
    have := hin i hi
    rw [Finset.mem_Ico]
    omega
  have hcard := Finset.card_le_card hsub
  rw [List.toFinset_card_of_nodup hnodup, Nat.card_Ico, List.length_flatMap] at hcard
  simpa using hcard

theorem dataOf_length (segs : List Segment) :
    (dataOf segs).length = (segs.map fun g => g.data.length).sum := by
  rw [dataOf, List.length_flatten, List.map_map]
  rfl

section RoundTrip

variable {c : Config} {entry flags : BitVec 32} {segs : List Segment} {args : List (BitVec 8)}

variable {m : Mem} {i : ℕ} {g : Segment} {x : BitVec 32} {l : List (BitVec 8)}

theorem Loadable.covers (h : Loadable c entry segs) (hg : g ∈ segs) :
    g.Covers x ↔ g.addr.toNat ≤ x.toNat ∧ x.toNat < g.addr.toNat + g.memsz.toNat :=
  within_iff ((h.high g hg).trans c.payloadEnd.isLt.le)

theorem Loadable.data_lt (h : Loadable c entry segs) : (dataOf segs).length < 2 ^ 32 := by
  have hsum := sum_length_le (fun g : Segment => g.addr.toNat) (fun g => g.memsz.toNat)
    (fun g hg => ⟨h.low g hg, h.high g hg⟩)
    (h.disjoint.imp_of_mem fun {g g'} hg hg' hdis x hx => ?_)
  · have hfile : (segs.map fun g => g.data.length).sum ≤ (segs.map fun g => g.memsz.toNat).sum :=
      List.sum_le_sum h.file
    have := c.payloadEnd.isLt
    rw [dataOf_length]
    omega
  · have hlt : x < 2 ^ 32 := by
      have := h.high g hg
      have := c.payloadEnd.isLt
      omega
    have hx' : (BitVec.ofNat 32 x).toNat = x := by rw [BitVec.toNat_ofNat, Nat.mod_eq_of_lt hlt]
    refine hdis (BitVec.ofNat 32 x) ⟨(h.covers hg).mpr ?_, (h.covers hg').mpr ?_⟩
    · rw [hx']; exact hx.1
    · rw [hx']; exact hx.2

theorem Loadable.file_lt (h : Loadable c entry segs) (hg : g ∈ segs) :
    g.data.length < 2 ^ 32 := lt_of_le_of_lt (h.file g hg) g.memsz.isLt

theorem Loadable.makeImage (h : Loadable c entry segs) (hargs : args.length ≤ rvbiMaxCmd)
    (flags : BitVec 32) :
    ∃ img, makeImage entry segs args flags = some img ∧ ImageIs entry segs args flags img := by
  have hseg : segs.length < 2 ^ 16 := lt_of_le_of_lt h.count (by decide)
  have hargs16 : args.length < 2 ^ 16 := lt_of_le_of_lt hargs (by decide)
  obtain ⟨crc, himg, hcrc⟩ := makeImage_eq entry flags hseg hargs
    (fun g hg => h.file_lt hg) h.data_lt
  refine ⟨_, himg, imageIs_parts ?_ ?_ ?_ hcrc⟩
  · rw [BitVec.toNat_ofNat, Nat.mod_eq_of_lt hseg]
  · rw [BitVec.toNat_ofNat, Nat.mod_eq_of_lt hargs16]
  · rw [BitVec.toNat_ofNat, Nat.mod_eq_of_lt h.data_lt]

structure TableIs (c : Config) (segs : List Segment) (m : Mem) : Prop where
  nseg : (c.nseg m).toNat = segs.length
  addr : ∀ i (hi : i < segs.length), c.segAddr m i = segs[i].addr
  filesz : ∀ i (hi : i < segs.length), (c.filesz m i).toNat = segs[i].data.length
  memsz : ∀ i (hi : i < segs.length), c.memsz m i = segs[i].memsz

theorem TableIs.good (ht : TableIs c segs m) (h : Loadable c entry segs) (hi : i < segs.length) :
    ¬badSegment c m i := by
  have hg := List.getElem_mem hi
  rw [not_badSegment_iff, ht.addr i hi, ht.memsz i hi, ht.filesz i hi]
  exact ⟨h.file _ hg, h.low _ hg, h.high _ hg⟩

theorem TableIs.fileBytes (ht : TableIs c segs m) (hi : i ≤ segs.length) :
    c.fileBytes m i = (dataOf (segs.take i)).length := by
  induction i with
  | zero => rfl
  | succ i ih =>
    rw [c.fileBytes_succ, ih (Nat.le_of_succ_le hi), dataOf_take_succ hi, ht.filesz i hi]

theorem TableIs.segment (ht : TableIs c segs m) (hi : i < segs.length) :
    c.segment m (dataOf segs) i = segs[i].contents := by
  rw [Config.segment, ht.fileBytes hi.le, ht.filesz i hi, dataOf_share hi, ht.memsz i hi,
    Segment.contents]

theorem TableIs.checked (ht : TableIs c segs m) (h : Loadable c entry segs)
    (hentry : c.entry m = entry) (hsize : (c.dataSize m).toNat = (dataOf segs).length) :
    c.Checked m := by
  refine ⟨fun i hi => ht.good h (ht.nseg ▸ hi), ?_, ?_⟩
  · rw [hsize, ht.nseg, ht.fileBytes le_rfl, List.take_length]
  · obtain ⟨g, hg, hin⟩ := h.entry_in
    obtain ⟨i, hi, rfl⟩ := List.getElem_of_mem hg
    refine ⟨i, ht.nseg ▸ hi, ?_⟩
    rw [Config.InFile, hentry, ht.addr i hi, ht.filesz i hi]
    exact hin

theorem Segment.contents_length (h : g.data.length ≤ g.memsz.toNat) :
    g.contents.length = g.memsz.toNat := by
  rw [Segment.contents, List.length_append, List.length_replicate]
  omega

theorem TableIs.placed_other (ht : TableIs c segs m) (h : Loadable c entry segs)
    {n : ℕ} (hn : n ≤ segs.length) (hx : ∀ i (hi : i < n), ¬segs[i].Covers x) :
    c.placed m (dataOf segs) n x = m x := by
  induction n with
  | zero => rfl
  | succ n ih =>
    have hg := List.getElem_mem (show n < segs.length from hn)
    have hlen := Segment.contents_length (h.file _ hg)
    rw [Config.placed, ht.segment hn, ht.addr n hn, write_of_not_within, ih (Nat.le_of_succ_le hn)]
    · exact fun i hi => hx i (Nat.lt_succ_of_lt hi)
    · rw [hlen]; exact segs[n].memsz.isLt.le
    · rw [hlen]; exact hx n n.lt_succ_self

theorem TableIs.placed_slice (ht : TableIs c segs m) (h : Loadable c entry segs)
    {n : ℕ} (hn : n ≤ segs.length) (hi : i < n) :
    slice (c.placed m (dataOf segs) n) segs[i].addr segs[i].memsz.toNat = segs[i].contents := by
  induction n with
  | zero => cases hi
  | succ n ih =>
    have hlen : ∀ k (hk : k < segs.length), segs[k].contents.length = segs[k].memsz.toNat :=
      fun k hk => Segment.contents_length (h.file _ (List.getElem_mem hk))
    rw [Config.placed, ht.segment hn, ht.addr n hn]
    rcases Nat.lt_succ_iff_lt_or_eq.mp hi with hlt | rfl
    · refine Eq.trans (slice_congr segs[i].memsz.isLt.le fun x hx => ?_)
        (ih (Nat.le_of_succ_le hn) hlt)
      rw [write_of_not_within (by rw [hlen n hn]; exact segs[n].memsz.isLt.le)]
      intro hin
      rw [hlen n hn] at hin
      exact List.pairwise_iff_getElem.mp h.disjoint i n _ hn hlt x ⟨hx, hin⟩
    · rw [← hlen i hn]
      exact slice_write _ _ (by rw [hlen i hn]; exact segs[i].memsz.isLt.le)

section
variable (hi : ImageIs entry segs args flags l) (h : Loadable c entry segs)
  (hargs : args.length ≤ rvbiMaxCmd)
include hi h hargs

theorem ImageIs.not_badHdr : ¬BadHdr l := by
  have hpos := h.pos
  have hcount := h.count
  unfold BadHdr
  rw [hi.magicWord, hi.version, hi.nseg, hi.cmdlineLen]
  have hne : u16 l 6 ≠ 0#16 := by
    intro h0
    have := hi.nseg
    rw [h0] at this
    exact absurd (this ▸ hpos) (by decide)
  simp only [ne_eq, not_true_eq_false, hne, false_or, not_or, Nat.not_lt]
  exact ⟨hcount, hargs⟩

theorem ImageIs.tableIs (m : Mem) :
    HdrIs c (c.received m (l.take hdrBytes) (tableOf l) (cmdlineOf l)) (l.take hdrBytes) ∧
      TableIs c segs (c.received m (l.take hdrBytes) (tableOf l) (cmdlineOf l)) := by
  obtain ⟨hhdr, hseg⟩ := received_image (c := c) m (hi.not_badHdr h hargs) hi.length
  refine ⟨hhdr, ?_, fun i hlt => ?_, fun i hlt => ?_, fun i hlt => ?_⟩
  · rw [hhdr.nseg, u16_take (by decide), hi.nseg]
  · rw [(hseg i (hi.nseg ▸ hlt)).segAddr, hi.table, (u32_row hlt).1]
  · rw [(hseg i (hi.nseg ▸ hlt)).filesz, hi.table, (u32_row hlt).2.1, BitVec.toNat_ofNat,
      Nat.mod_eq_of_lt (h.file_lt (List.getElem_mem hlt))]
  · rw [(hseg i (hi.nseg ▸ hlt)).memsz, hi.table, (u32_row hlt).2.2]

end

theorem loadChecked_table {s : Machine} (h : Loadable c entry segs) (ht : TableIs c segs s.mem)
    (hentry : c.entry s.mem = entry) (hsize : (c.dataSize s.mem).toNat = (dataOf segs).length)
    (hcrc : c.dataCrc s.mem = crc32 0#32 (dataOf segs)) {rest : List (BitVec 8)}
    (hfeeds : Feeds c (dataOf segs ++ rest) s) (herr : s.lineErr = 0#32) :
    Wp (loadChecked c)
      (fun code s' => code = .ok ∧ s'.mem = c.placed s.mem (dataOf segs) segs.length)
      (fun _ _ => False) s := by
  have hpass := ht.checked h hentry hsize
  rw [Wp, loadChecked_passes hpass]
  refine (receiveData_fed (ht.nseg ▸ h.count) hpass.rows (hpass.sizes.trans hsize) hfeeds
    herr).imp ?_ fun _ _ h => h
  rintro code s' ⟨rfl, hmem, -⟩
  exact ⟨if_neg (not_not.mpr hcrc.symm), ht.nseg ▸ hmem⟩

/-- What the loader leaves of an image, from memory `m`. -/
structure InPlace (c : Config) (entry : BitVec 32) (segs : List Segment) (args : List (BitVec 8))
    (flags : BitVec 32) (m m' : Mem) : Prop where
  entry : c.entry m' = entry
  flags : c.flags m' = flags
  cmdline : slice m' c.cmdline (args.length + 1) = args ++ [0#8]
  segment : ∀ g ∈ segs, slice m' g.addr g.memsz.toNat = g.contents
  other : ∀ x, c.Payload x → (∀ g ∈ segs, ¬g.Covers x) → m' x = m x

theorem received_payload {hd tbl cmd : List (BitVec 8)} (m : Mem) (hlen : hd.length = hdrBytes)
    (htbl : tbl.length ≤ segBytes * rvbiMaxSegs) (hcmd : cmd.length ≤ rvbiMaxCmd)
    (hx : c.Payload x) : c.received m hd tbl cmd x = m x := by
  have hline := line_le hcmd
  have hown : ∀ {y}, c.Own y → y ≠ x := fun h h' => h.not_payload (h' ▸ hx)
  rw [Config.received,
    write_of_not_within (hline.trans (by decide)) fun hin =>
      hown (Or.inr (Or.inr (hin.mono hline))) rfl,
    write_of_not_within (htbl.trans (by decide)) fun hin =>
      hown (Or.inr (Or.inl (hin.mono htbl))) rfl,
    write_of_not_within (by rw [hlen]; decide) fun hin => hown (Or.inl (hlen ▸ hin)) rfl]

theorem received_cmdline (m : Mem) (hd tbl : List (BitVec 8)) {cmd : List (BitVec 8)}
    (hcmd : cmd.length ≤ rvbiMaxCmd) :
    slice (c.received m hd tbl cmd) c.cmdline (cmd.length + 1) = cmd ++ [0#8] := by
  have hline : (cmd ++ [0#8]).length = cmd.length + 1 := List.length_append
  rw [← hline]
  refine slice_write _ _ ?_
  rw [hline]
  exact le_trans (Nat.succ_le_succ hcmd) (by decide)

theorem inPlace_placed (hi : ImageIs entry segs args flags l)
    (h : Loadable c entry segs) (hargs : args.length ≤ rvbiMaxCmd) (m : Mem) :
    InPlace c entry segs args flags m
      (c.placed (c.received m (l.take hdrBytes) (tableOf l) (cmdlineOf l)) (dataOf segs)
        segs.length) := by
  obtain ⟨hhdr, ht⟩ := hi.tableIs h hargs m
  obtain ⟨m₁, hm₁⟩ : ∃ m₁, m₁ = c.received m (l.take hdrBytes) (tableOf l) (cmdlineOf l) :=
    ⟨_, rfl⟩
  rw [← hm₁] at hhdr ht ⊢
  have hown : ∀ x, c.Own x → c.placed m₁ (dataOf segs) segs.length x = m₁ x := by
    intro x hx
    refine placed_frame (fun i hlt => ht.good h hlt) ?_ hx.not_payload
    rw [ht.fileBytes le_rfl, List.take_length]
  have hsame : SameHdr c m₁ (c.placed m₁ (dataOf segs) segs.length) :=
    SameHdr.of_bytes fun x hx => hown x (Or.inl hx)
  refine ⟨?_, ?_, ?_, ?_, ?_⟩
  · rw [hsame.entry, hhdr.entry, u32_take (by decide), hi.entry]
  · rw [hsame.flags, hhdr.flags, u32_take (by decide), hi.flags]
  · have hle : args.length + 1 ≤ rvbiMaxCmd + 1 := Nat.succ_le_succ hargs
    refine Eq.trans (slice_congr (hle.trans (by decide)) fun x hx =>
      hown x (Or.inr (Or.inr (hx.mono hle)))) ?_
    have hcmd := received_cmdline (c := c) m (l.take hdrBytes) (tableOf l)
      (hi.cmdline.symm ▸ hargs : (cmdlineOf l).length ≤ rvbiMaxCmd)
    rwa [← hm₁, hi.cmdline] at hcmd
  · intro g hg
    obtain ⟨i, hlt, rfl⟩ := List.getElem_of_mem hg
    exact ht.placed_slice h le_rfl hlt
  · intro x hx hfree
    rw [ht.placed_other h le_rfl fun i hlt => hfree _ (List.getElem_mem hlt), hm₁]
    refine received_payload m (List.length_take_of_le ?_) ?_ ?_ hx
    · exact le_trans (Nat.le_add_right _ _) hi.length
    · rw [hi.table, table_length, Nat.mul_comm]
      exact Nat.mul_le_mul_left _ h.count
    · rwa [hi.cmdline]

/-- What `make_image` makes, sent behind any noise that does not hold the magic, `load_image`
accepts and puts in place. -/
theorem image_round_trip (h : Loadable c entry segs) (hargs : args.length ≤ rvbiMaxCmd)
    (flags : BitVec 32) :
    ∃ img, makeImage entry segs args flags = some img ∧
      ∀ (noise : List (BitVec 8)) (s : Machine), FirstMagic noise img → s.msrc = 0#32 →
        Clear s.line → noise ++ img <+: delivered s.line →
        Wp (loadImage c)
          (fun code s' => code = .ok ∧ InPlace c entry segs args flags s.mem s'.mem)
          (fun _ _ => False) s := by
  obtain ⟨img, himg, hi⟩ := h.makeImage hargs flags
  refine ⟨img, himg, fun noise s hfirst hmsrc hclear hline => ?_⟩
  have hstart : Starts c img s := starts_onLine hmsrc hclear hline hi.magic hfirst
  unfold loadImage
  refine (receiveHeader_image hstart (hi.not_badHdr h hargs) hi.length).bind ?_ fun _ _ h => h
  rintro r s₁ ⟨rfl, hr₁⟩
  rw [if_neg (not_not.mpr hi.hdrCrc)]
  obtain ⟨hhdr, ht⟩ := hi.tableIs h hargs s.mem
  have hfeeds := hr₁.feeds
  rw [hi.data, ← List.append_nil (dataOf segs)] at hfeeds
  rw [← hr₁.mem] at hhdr ht
  refine (loadChecked_table h ht ?_ ?_ ?_ hfeeds hr₁.lineErr).imp ?_ fun _ _ h => h
  · rw [hhdr.entry, u32_take (by decide), hi.entry]
  · rw [hhdr.dataSize, u32_take (by decide), hi.dataSize]
  · rw [hhdr.dataCrc, u32_take (by decide), hi.dataCrc]
  · rintro code s' ⟨rfl, hmem⟩
    rw [hmem, hr₁.mem]
    exact ⟨rfl, inPlace_placed hi h hargs s.mem⟩

end RoundTrip

def polls (l : List (BitVec 8)) : List Poll := l.map fun b => ⟨lsrDr, b.setWidth 32⟩

theorem delivered_polls (l : List (BitVec 8)) : delivered (polls l) = l := by
  induction l with
  | nil => rfl
  | cons b l ih =>
    rw [polls, List.map_cons, ← polls, delivered,
      if_pos (show lsrDr &&& lsrDr ≠ 0#32 by decide), ih]
    simp

theorem clear_polls (l : List (BitVec 8)) : Clear (polls l) := by
  intro p hp
  obtain ⟨b, -, rfl⟩ := List.mem_map.mp hp
  exact show lsrDr &&& lsrErrors = 0#32 by decide

def twoSegments : List Segment :=
  [⟨payloadBase, [0x13#8, 0#8, 0#8, 0#8], 8#32⟩, ⟨payloadBase + 16#32, [], 4#32⟩]

theorem twoSegments_loadable : Loadable board payloadBase twoSegments where
  pos := by decide
  count := by decide
  disjoint := by
    refine List.pairwise_pair.mpr fun x hx => ?_
    obtain ⟨h₁, h₂⟩ := hx
    simp only [Segment.Covers, Within, payloadBase] at h₁ h₂
    bv_omega
  file := by decide
  low := by decide
  high := by decide
  entry_in := by decide

theorem twoSegments_round_trip : ∃ img, makeImage payloadBase twoSegments [] 0#32 = some img ∧
      Wp (loadImage board)
        (fun code s' => code = .ok ∧
          InPlace board payloadBase twoSegments [] 0#32 (resetWith []).mem s'.mem)
        (fun _ _ => False) { resetWith [] with line := polls (0xff#8 :: img) } := by
  obtain ⟨img, himg, hload⟩ := image_round_trip twoSegments_loadable
    (show ([] : List (BitVec 8)).length ≤ rvbiMaxCmd by decide) 0#32
  refine ⟨img, himg, hload [0xff#8] _ ?_ rfl (clear_polls _) ?_⟩
  · intro k hk
    obtain rfl : k = 0 := Nat.lt_one_iff.mp hk
    intro h
    exact absurd (List.cons.inj h).1 (by decide)
  · exact ⟨[], by rw [List.append_nil]; exact (delivered_polls _).symm⟩

end RiscvScratch.Rvbi
